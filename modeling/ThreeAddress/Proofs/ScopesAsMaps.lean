import ThreeAddress.Proofs.IndexedScopes
import ThreeAddress.Proofs.OrderedMaps

/-!
# Scopes are maps in order

A scope is a map in order, whether it is kept as a list that is searched or as a row with an index; and a table is a
stack of such maps.  Whatever is done in turn, the answers are those of the maps, and no step goes astray.

* `Scope.Lists`, `SymbolTable.Stacks` — a scope lists the entities of a map, a table those of a stack of maps;
* `Answer`, `ScopeAction`, `TableAction` — what can be done in a scope and in a table, and the answers;
* `runAll`, `runAll_agree` — actions in turn, and runs that agree step by step;
* `scopes_agree_with_maps` — the runs of scopes, of tables, and of those with an index, are those of maps.
-/

namespace ThreeAddress

/-! ### Scopes as maps -/

namespace Scope

variable {s : Scope} {m : EntityMap} {e : Entity} {x : String}

/-- A scope lists a map: the same names in the same order, each with the same meaning. -/
structure Lists (s : Scope) (m : EntityMap) : Prop where
  names : s.names = m.names
  meaning : ∀ x, s.lookup? x = m.meaning x

theorem lists_empty : Scope.empty.Lists .empty := ⟨rfl, fun _ => rfl⟩

/-- Where the entities of one name are changed, and keep it, only that name means something else. -/
theorem lookup_change {f : Entity → Entity} (hf : ∀ e, e.name = x → (f e).name = x) (y : String) :
    lookup? ⟨s.entities.map fun e => if e.name = x then f e else e⟩ y =
      if y = x then (s.lookup? y).map f else s.lookup? y := by
  have hname (e : Entity) : (if e.name = x then f e else e).name = e.name := by
    split
    · rename_i hx
      rw [hf e hx, hx]
    · rfl
  unfold lookup?
  rw [List.find?_map, show ((·.name == y) ∘ fun e : Entity => if e.name = x then f e else e) = (·.name == y) from
    funext fun e => by simp only [Function.comp, hname]]
  cases hfind : s.entities.find? (·.name == y) with
  | none => simp
  | some e =>
    have he : e.name = y := by simpa using List.find?_some hfind
    by_cases hy : y = x
    · simp [he, hy]
    · simp [he, hy]

theorem names_change {f : Entity → Entity} (hf : ∀ e, e.name = x → (f e).name = x) :
    names ⟨s.entities.map fun e => if e.name = x then f e else e⟩ = s.names := by
  rw [names, List.map_map, names]
  refine List.map_congr_left fun e _ => ?_
  rw [Function.comp]
  split
  · rename_i hx
    rw [hf e hx, hx]
  · rfl

namespace Lists

theorem contains (h : s.Lists m) (x : String) : s.contains x = (m.meaning x).isSome := by
  rw [s.contains_eq, h.meaning]

theorem change (h : s.Lists m) {f : Entity → Entity} (hf : ∀ e, e.name = x → (f e).name = x) :
    Lists ⟨s.entities.map fun e => if e.name = x then f e else e⟩ (m.change x f hf) := by
  refine ⟨(names_change hf).trans h.names, fun y => ?_⟩
  rw [lookup_change hf, h.meaning]
  rfl

theorem replace (h : s.Lists m) (e : Entity) : (s.replace e).Lists (m.replace e) := h.change _

theorem setState (h : s.Lists m) (x : String) (state : EntityState) : (s.setState x state).Lists (m.setState x state) :=
  h.change _

/-- Both take up an entity, or both refuse it for the same one. -/
theorem define (h : s.Lists m) (e : Entity) :
    (∃ old, s.define e = .error old ∧ m.define e = .error old) ∨
      ∃ s' m', s.define e = .ok s' ∧ m.define e = .ok m' ∧ s'.Lists m' := by
  unfold EntityMap.define
  split
  · rename_i old hold
    refine .inl ⟨old, ?_, rfl⟩
    rw [Scope.define, h.meaning, hold]
  · rename_i hnone
    obtain ⟨s', hs'⟩ := define_eq_ok_iff.2 ((h.meaning e.name).trans hnone)
    refine .inr ⟨s', _, hs', rfl, ?_, fun x => ?_⟩
    · rw [(names_define hs').2, h.names]
      rfl
    · rw [lookup_define hs', h.meaning]
      rfl

/-- A scope lists the entities of the map. -/
theorem entities_eq (h : s.Lists m) : s.entities = m.toList := by
  have hd : s.names.Nodup := h.names ▸ m.distinct
  have hfound : ∀ e ∈ s.entities, m.meaning e.name = some e := by
    intro e he
    have hbound : (s.lookup? e.name).isSome := by
      rw [h.meaning, m.bound, ← h.names]
      exact List.mem_map_of_mem he
    obtain ⟨e', he'⟩ := Option.isSome_iff_exists.1 hbound
    rw [← h.meaning, he', eq_of_lookup hd he' he rfl]
  have hmeanings : s.entities.filterMap (m.meaning ∘ Entity.name) = s.entities.filterMap some :=
    List.filterMap_congr hfound
  rw [EntityMap.toList, ← h.names, Scope.names, List.filterMap_map, hmeanings, List.filterMap_some]

end Lists

end Scope

/-! ### Tables as stacks -/

namespace SymbolTable

variable {t : SymbolTable} {m : MapStack} {ss : List Scope} {ms : List EntityMap}

/-- Each scope of a table lists a map of a stack, innermost first. -/
def Stacks (t : SymbolTable) (m : MapStack) : Prop := List.Forall₂ Scope.Lists t.scopes.reverse m.maps

theorem stacks_empty : empty.Stacks .empty := .cons Scope.lists_empty .nil

/-- A name is first known at the same place. -/
theorem findIdx_lists (h : List.Forall₂ Scope.Lists ss ms) (x : String) :
    ss.findIdx (·.contains x) = ms.findIdx fun m => (m.meaning x).isSome := by
  induction h with
  | nil => rfl
  | cons hs _ ih => rw [List.findIdx_cons, List.findIdx_cons, hs.contains, ih]

/-- A name means the same wherever it is first known. -/
theorem findSome?_lists (h : List.Forall₂ Scope.Lists ss ms) (x : String) :
    ss.findSome? (·.lookup? x) = ms.findSome? (·.meaning x) := by
  induction h with
  | nil => rfl
  | cons hs _ ih => rw [List.findSome?_cons, List.findSome?_cons, hs.meaning, ih]

/-- Both list the same entities. -/
theorem entities_lists (h : List.Forall₂ Scope.Lists ss ms) : ss.map Scope.entities = ms.map EntityMap.toList := by
  induction h with
  | nil => rfl
  | cons hs _ ih => rw [List.map_cons, List.map_cons, hs.entities_eq, ih]

/-- Both are changed at one place. -/
theorem modify_lists (h : List.Forall₂ Scope.Lists ss ms) {f : Scope → Scope} {g : EntityMap → EntityMap} (place : Nat)
    (hfg : ∀ s m, s.Lists m → (f s).Lists (g m)) :
    List.Forall₂ Scope.Lists (ss.modify place f) (ms.modify place g) := by
  induction h generalizing place with
  | nil => simp
  | cons hs hmore ih =>
    cases place with
    | zero => exact .cons (hfg _ _ hs) hmore
    | succ place => exact .cons hs (ih place)

namespace Stacks

/-- The innermost scope lists the innermost map, and may be put in its place. -/
theorem current (h : t.Stacks m) : t.current.Lists m.top ∧
    ∀ {s' : Scope} {m' : EntityMap}, s'.Lists m' → (t.withCurrent s').Stacks (m.modify 0 fun _ => m') := by
  obtain ⟨inner, globals⟩ := t
  obtain ⟨maps, hne⟩ := m
  rw [Stacks, reverse_scopes] at h
  cases inner with
  | nil =>
    cases h with
    | cons hs hmore =>
      cases hmore
      exact ⟨hs, fun hs' => .cons hs' .nil⟩
  | cons s outer =>
    cases h with
    | cons hs hmore =>
      refine ⟨hs, fun {s' m'} hs' => ?_⟩
      rw [Stacks, reverse_scopes]
      exact .cons hs' hmore

/-- The global scope lists the outermost map, and both may be changed. -/
theorem globals (h : t.Stacks m) : t.globals.Lists m.global ∧
    ∀ {s' : Scope} {f : EntityMap → EntityMap}, s'.Lists (f m.global) →
      Stacks ⟨t.inner, s'⟩ (m.modify m.globalPlace f) := by
  obtain ⟨maps, hne⟩ := m
  obtain ⟨g, outer, hg, houter, heq⟩ := List.forall₂_cons_left_iff.1 (List.forall₂_reverse_iff.1
    (by rwa [List.reverse_reverse] : List.Forall₂ Scope.Lists t.scopes.reverse maps.reverse.reverse))
  obtain rfl : maps = outer.reverse ++ [g] := by rw [← maps.reverse_reverse, heq, List.reverse_cons]
  have hglobal : MapStack.global ⟨outer.reverse ++ [g], hne⟩ = g := List.getLast_concat
  rw [hglobal]
  refine ⟨hg, fun {s' f} hs' => ?_⟩
  have hlast : (outer.reverse ++ [g]).modify ((outer.reverse ++ [g]).length - 1) f = outer.reverse ++ [f g] := by
    rw [List.length_append, List.length_singleton, Nat.add_sub_cancel, List.modify_eq_take_cons_drop (by simp)]
    simp
  rw [Stacks, reverse_scopes]
  simp only [MapStack.modify, MapStack.globalPlace, hlast]
  exact List.rel_append (by simpa using List.forall₂_reverse_iff.2 houter) (.cons hs' .nil)

theorem push (h : t.Stacks m) : t.push.Stacks m.push := by
  rw [Stacks, reverse_scopes] at h ⊢
  exact .cons Scope.lists_empty h

/-- Both close a scope of the same entities, or none. -/
theorem pop (h : t.Stacks m) :
    (t.pop? = none ∧ m.pop? = (none, m)) ∨
      ∃ s t' top m', t.pop? = some (s, t') ∧ m.pop? = (some top, m') ∧ s.Lists top ∧ t'.Stacks m' := by
  obtain ⟨inner, globals⟩ := t
  obtain ⟨maps, hne⟩ := m
  rw [Stacks, reverse_scopes] at h
  cases inner with
  | nil =>
    cases h with
    | cons hs hmore =>
      cases hmore
      exact .inl ⟨rfl, rfl⟩
  | cons s outer =>
    cases h with
    | @cons _ top _ below hs hmore =>
      have hbelow : below ≠ [] := by
        rintro rfl
        simpa using hmore.length_eq
      refine .inr ⟨s, ⟨outer, globals⟩, top, ⟨below, hbelow⟩, rfl, dif_neg hbelow, hs, ?_⟩
      rwa [Stacks, reverse_scopes]

/-- Both take up an entity in the innermost scope, or both refuse it for the same one. -/
theorem define (h : t.Stacks m) (e : Entity) :
    (∃ old, t.define e = .error old ∧ m.define e = .error old) ∨
      ∃ t' m', t.define e = .ok t' ∧ m.define e = .ok m' ∧ t'.Stacks m' := by
  obtain ⟨hc, hput⟩ := h.current
  rcases hc.define e with ⟨old, ht, hm⟩ | ⟨s', m', ht, hm, hs'⟩
  · exact .inl ⟨old, by rw [t.define_eq, ht]; rfl, by rw [MapStack.define, hm]; rfl⟩
  · exact .inr ⟨_, _, by rw [t.define_eq, ht]; rfl, by rw [MapStack.define, hm]; rfl, hput hs'⟩

/-- Both take up an entity in the global scope, or both refuse it for the same one. -/
theorem defineGlobal (h : t.Stacks m) (e : Entity) :
    (∃ old, t.defineGlobal e = .error old ∧ m.defineGlobal e = .error old) ∨
      ∃ t' m', t.defineGlobal e = .ok t' ∧ m.defineGlobal e = .ok m' ∧ t'.Stacks m' := by
  obtain ⟨hg, hput⟩ := h.globals
  rcases hg.define e with ⟨old, ht, hm⟩ | ⟨s', m', ht, hm, hs'⟩
  · exact .inl ⟨old, by rw [SymbolTable.defineGlobal, ht]; rfl, by rw [MapStack.defineGlobal, hm]; rfl⟩
  · exact .inr ⟨_, _, by rw [SymbolTable.defineGlobal, ht]; rfl, by rw [MapStack.defineGlobal, hm]; rfl, hput hs'⟩

theorem meaning (h : t.Stacks m) (x : String) : t.lookup? x = m.meaning x := by
  rw [t.lookup?_eq, MapStack.meaning]
  exact findSome?_lists h x

theorem setState (h : t.Stacks m) (x : String) (state : EntityState) :
    (t.setState x state).Stacks (m.setState x state) := by
  rw [Stacks, scopes_setState, findIdx_lists h]
  exact modify_lists h _ fun _ _ hs => hs.setState x state

theorem setGlobalState (h : t.Stacks m) (x : String) (state : EntityState) :
    (t.setGlobalState x state).Stacks (m.setGlobalState x state) :=
  h.globals.2 (h.globals.1.setState x state)

end Stacks

end SymbolTable

/-! ### Actions and answers -/

/-- What can be answered. -/
inductive Answer
  | done
  | taken (existing : Entity)
  | meaning (e : Option Entity)
  | said (yes : Bool)
  | entities (es : Option (List Entity))
deriving DecidableEq

/-- The answer to a definition, and what there is behind it: if the name is taken, all is as before. -/
def Answer.ofDefined {σ : Type} (old : σ) : Except Entity σ → Answer × σ
  | .ok new => (.done, new)
  | .error existing => (.taken existing, old)

/-- What can be done in a scope. -/
inductive ScopeAction
  | define (e : Entity)
  | replace (e : Entity)
  | lookup (name : String)
  | contains (name : String)
  | list

/-- What can be done in a table. -/
inductive TableAction
  | push
  | pop
  | define (e : Entity)
  | defineGlobal (e : Entity)
  | lookup (name : String)
  | lookupGlobal (name : String)
  | declaredHere (name : String)
  | setState (name : String) (state : EntityState)
  | setGlobalState (name : String) (state : EntityState)

/-- A scope does something. -/
def Scope.act (s : Scope) : ScopeAction → Answer × Scope
  | .define e => Answer.ofDefined s (s.define e)
  | .replace e => (.said (s.contains e.name), s.replace e)
  | .lookup x => (.meaning (s.lookup? x), s)
  | .contains x => (.said (s.contains x), s)
  | .list => (.entities (some s.entities), s)

/-- A map in order does something. -/
def EntityMap.act (m : EntityMap) : ScopeAction → Answer × EntityMap
  | .define e => Answer.ofDefined m (m.define e)
  | .replace e => (.said (m.meaning e.name).isSome, m.replace e)
  | .lookup x => (.meaning (m.meaning x), m)
  | .contains x => (.said (m.meaning x).isSome, m)
  | .list => (.entities (some m.toList), m)

/-- A scope with an index does something, unless it goes astray. -/
def IndexedScope.act (s : IndexedScope) : ScopeAction → Option (Answer × IndexedScope)
  | .define e => (s.define e).map (Answer.ofDefined s)
  | .replace e => (s.replace e).map fun r => (.said r.1, r.2)
  | .lookup x => (s.lookup? x).map fun r => (.meaning r, s)
  | .contains x => some (.said (s.contains x), s)
  | .list => some (.entities (some s.entities.toList), s)

/-- A table does something. -/
def SymbolTable.act (t : SymbolTable) : TableAction → Answer × SymbolTable
  | .push => (.done, t.push)
  | .pop =>
    match t.pop? with
    | some (s, outer) => (.entities (some s.entities), outer)
    | none => (.entities none, t)
  | .define e => Answer.ofDefined t (t.define e)
  | .defineGlobal e => Answer.ofDefined t (t.defineGlobal e)
  | .lookup x => (.meaning (t.lookup? x), t)
  | .lookupGlobal x => (.meaning (t.lookupGlobal? x), t)
  | .declaredHere x => (.said (t.declaredHere x), t)
  | .setState x state => (.done, t.setState x state)
  | .setGlobalState x state => (.done, t.setGlobalState x state)

/-- A stack of maps does something. -/
def MapStack.act (m : MapStack) : TableAction → Answer × MapStack
  | .push => (.done, m.push)
  | .pop => (.entities (m.pop?.1.map EntityMap.toList), m.pop?.2)
  | .define e => Answer.ofDefined m (m.define e)
  | .defineGlobal e => Answer.ofDefined m (m.defineGlobal e)
  | .lookup x => (.meaning (m.meaning x), m)
  | .lookupGlobal x => (.meaning (m.global.meaning x), m)
  | .declaredHere x => (.said (m.top.meaning x).isSome, m)
  | .setState x state => (.done, m.setState x state)
  | .setGlobalState x state => (.done, m.setGlobalState x state)

/-- A table with an index does something, unless it goes astray. -/
def IndexedTable.act (t : IndexedTable) : TableAction → Option (Answer × IndexedTable)
  | .push => some (.done, t.push)
  | .pop => some (.entities (t.pop?.1.map (·.entities.toList)), t.pop?.2)
  | .define e => (t.define e).map (Answer.ofDefined t)
  | .defineGlobal e => (t.defineGlobal e).map (Answer.ofDefined t)
  | .lookup x => (t.lookup? x).map fun r => (.meaning r, t)
  | .lookupGlobal x => (t.lookupGlobal? x).map fun r => (.meaning r, t)
  | .declaredHere x => some (.said (t.declaredHere x), t)
  | .setState x state => (t.setState x state).map fun t' => (.done, t')
  | .setGlobalState x state => (t.setGlobalState x state).map fun t' => (.done, t')

/-! ### One action -/

/-- Both answer the same, and what they come to is related again. -/
def Agree {σ τ : Type} (R : σ → τ → Prop) (x : Option (Answer × σ)) (y : Answer × τ) : Prop :=
  ∃ answer s, x = some (answer, s) ∧ y.1 = answer ∧ R s y.2

/-- Where both define an entity or refuse it for the same one, they agree. -/
theorem Agree.ofDefined {σ τ : Type} {R : σ → τ → Prop} {s : σ} {t : τ} (h : R s t) {x : Option (Except Entity σ)}
    {y : Except Entity τ}
    (hxy : (∃ old, x = some (.error old) ∧ y = .error old) ∨
      ∃ s' t', x = some (.ok s') ∧ y = .ok t' ∧ R s' t') :
    Agree R (x.map (Answer.ofDefined s)) (Answer.ofDefined t y) := by
  rcases hxy with ⟨old, rfl, rfl⟩ | ⟨s', t', rfl, rfl, h'⟩
  · exact ⟨_, s, rfl, rfl, h⟩
  · exact ⟨_, s', rfl, rfl, h'⟩

theorem Scope.Lists.act {s : Scope} {m : EntityMap} (h : s.Lists m) (a : ScopeAction) :
    Agree Lists (some (s.act a)) (m.act a) := by
  cases a with
  | define e => exact Agree.ofDefined (x := some (s.define e)) h (by simpa using h.define e)
  | replace e => exact ⟨_, _, rfl, congrArg _ (h.contains _).symm, h.replace e⟩
  | lookup x => exact ⟨_, _, rfl, congrArg _ (h.meaning x).symm, h⟩
  | contains x => exact ⟨_, _, rfl, congrArg _ (h.contains x).symm, h⟩
  | list => exact ⟨_, _, rfl, congrArg (Answer.entities ∘ some) h.entities_eq.symm, h⟩

theorem IndexedScope.Indexes.act {s : IndexedScope} {p : Scope} (h : s.Indexes p) (a : ScopeAction) :
    Agree Indexes (s.act a) (p.act a) := by
  cases a with
  | define e => exact .ofDefined h (h.define e)
  | replace e =>
    obtain ⟨s', hs', h'⟩ := h.replace e
    exact ⟨_, s', by rw [IndexedScope.act, hs']; rfl, rfl, h'⟩
  | lookup x => exact ⟨_, s, by rw [IndexedScope.act, h.lookup]; rfl, rfl, h⟩
  | contains x => exact ⟨_, s, rfl, congrArg _ (h.contains x).symm, h⟩
  | list => exact ⟨_, s, rfl, congrArg (Answer.entities ∘ some) h.row.symm, h⟩

theorem SymbolTable.Stacks.act {t : SymbolTable} {m : MapStack} (h : t.Stacks m) (a : TableAction) :
    Agree Stacks (some (t.act a)) (m.act a) := by
  cases a with
  | push => exact ⟨_, _, rfl, rfl, h.push⟩
  | pop =>
    rcases h.pop with ⟨ht, hm⟩ | ⟨s, t', top, m', ht, hm, hs, h'⟩
    · exact ⟨_, t, by rw [SymbolTable.act, ht], by rw [MapStack.act, hm]; rfl, by rw [MapStack.act, hm]; exact h⟩
    · refine ⟨_, t', by rw [SymbolTable.act, ht], ?_, by rw [MapStack.act, hm]; exact h'⟩
      rw [MapStack.act, hm, hs.entities_eq]
      rfl
  | define e => exact Agree.ofDefined (x := some (t.define e)) h (by simpa using h.define e)
  | defineGlobal e => exact Agree.ofDefined (x := some (t.defineGlobal e)) h (by simpa using h.defineGlobal e)
  | lookup x => exact ⟨_, t, rfl, congrArg _ (h.meaning x).symm, h⟩
  | lookupGlobal x => exact ⟨_, t, rfl, congrArg _ (h.globals.1.meaning x).symm, h⟩
  | declaredHere x => exact ⟨_, t, rfl, congrArg _ (h.current.1.contains x).symm, h⟩
  | setState x state => exact ⟨_, _, rfl, rfl, h.setState x state⟩
  | setGlobalState x state => exact ⟨_, _, rfl, rfl, h.setGlobalState x state⟩

theorem IndexedTable.Indexes.act {i : IndexedTable} {t : SymbolTable} (h : i.Indexes t) (a : TableAction) :
    Agree Indexes (i.act a) (t.act a) := by
  cases a with
  | push => exact ⟨_, _, rfl, rfl, h.push⟩
  | pop =>
    rcases h.pop with ⟨hi, ht⟩ | ⟨c, i', s, t', hi, ht, hc, h'⟩
    · exact ⟨_, i, by rw [IndexedTable.act, hi], by rw [SymbolTable.act, ht]; rfl, by rw [SymbolTable.act, ht]; exact h⟩
    · refine ⟨_, i', by rw [IndexedTable.act, hi], ?_, by rw [SymbolTable.act, ht]; exact h'⟩
      rw [SymbolTable.act, ht, Option.map_some, hc.row]
  | define e => exact .ofDefined h (h.define e)
  | defineGlobal e => exact .ofDefined h (h.defineGlobal e)
  | lookup x => exact ⟨_, i, by rw [IndexedTable.act, h.lookup]; rfl, rfl, h⟩
  | lookupGlobal x => exact ⟨_, i, by rw [IndexedTable.act, h.lookupGlobal]; rfl, rfl, h⟩
  | declaredHere x => exact ⟨_, i, rfl, congrArg _ (h.declaredHere x).symm, h⟩
  | setState x state =>
    obtain ⟨i', hi', h'⟩ := h.setState x state
    exact ⟨_, i', by rw [IndexedTable.act, hi']; rfl, rfl, h'⟩
  | setGlobalState x state =>
    obtain ⟨i', hi', h'⟩ := h.setGlobalState x state
    exact ⟨_, i', by rw [IndexedTable.act, hi']; rfl, rfl, h'⟩

/-! ### Actions in turn -/

section Runs

variable {α σ τ : Type}

/-- The answers to some actions in turn, and what is there in the end; unless one of them goes astray. -/
def runAll? (act : σ → α → Option (Answer × σ)) : σ → List α → Option (List Answer × σ)
  | s, [] => some ([], s)
  | s, a :: more => do
    let (answer, s') ← act s a
    let (answers, last) ← runAll? act s' more
    return (answer :: answers, last)

/-- The answers to some actions in turn, and what is there in the end. -/
def runAll (act : σ → α → Answer × σ) : σ → List α → List Answer × σ
  | s, [] => ([], s)
  | s, a :: more => ((act s a).1 :: (runAll act (act s a).2 more).1, (runAll act (act s a).2 more).2)

variable {R : σ → τ → Prop} {act : σ → α → Option (Answer × σ)} {spec : τ → α → Answer × τ}

/-- If both agree on each action, they agree on any number of them in turn. -/
theorem runAll_agree (hact : ∀ s t a, R s t → Agree R (act s a) (spec t a)) (actions : List α) {s : σ} {t : τ}
    (h : R s t) :
    ∃ last, runAll? act s actions = some ((runAll spec t actions).1, last) ∧ R last (runAll spec t actions).2 := by
  induction actions generalizing s t with
  | nil => exact ⟨s, rfl, h⟩
  | cons a more ih =>
    obtain ⟨answer, s', hs, hanswer, h'⟩ := hact s t a h
    obtain ⟨last, hmore, hlast⟩ := ih h'
    refine ⟨last, ?_, hlast⟩
    rw [runAll?, hs, Option.bind_eq_bind, Option.bind_some]
    simp only [hmore, runAll, hanswer]
    rfl

/-- Where nothing goes astray, both runs are one. -/
theorem runAll?_some (act : σ → α → Answer × σ) (actions : List α) (s : σ) :
    runAll? (fun s a => some (act s a)) s actions = some (runAll act s actions) := by
  induction actions generalizing s with
  | nil => rfl
  | cons a more ih =>
    rw [runAll?, Option.bind_eq_bind, Option.bind_some]
    simp only [ih]
    rfl

end Runs

/-- What is done in a new scope or a new table, action by action, is what is done in a map in order or in a stack of
such maps: every answer is the same, and so is what there is in the end.  It makes no difference whether the entities
are searched or found by an index; no place that the index tells is beyond the row. -/
theorem scopes_agree_with_maps :
    (∀ actions : List ScopeAction, ∃ answers m s i,
      runAll EntityMap.act .empty actions = (answers, m) ∧
        runAll Scope.act .empty actions = (answers, s) ∧ s.entities = m.toList ∧
        runAll? IndexedScope.act .empty actions = some (answers, i) ∧ i.entities.toList = m.toList) ∧
    ∀ actions : List TableAction, ∃ answers m t i,
      runAll MapStack.act .empty actions = (answers, m) ∧
        runAll SymbolTable.act .empty actions = (answers, t) ∧
        t.scopes.reverse.map Scope.entities = m.maps.map EntityMap.toList ∧
        runAll? IndexedTable.act .empty actions = some (answers, i) ∧
        i.scopes.reverse.map (·.entities.toList) = m.maps.map EntityMap.toList := by
  constructor
  · intro actions
    obtain ⟨s, hs, hlists⟩ := runAll_agree (fun _ _ a h => Scope.Lists.act h a) actions Scope.lists_empty
    rw [runAll?_some, Option.some.injEq] at hs
    obtain ⟨i, hi, hindexes⟩ := runAll_agree (fun _ _ a h => IndexedScope.Indexes.act h a) actions
      IndexedScope.indexes_empty
    rw [hs] at hi hindexes
    exact ⟨_, _, s, i, rfl, hs, hlists.entities_eq, hi, hindexes.row.trans hlists.entities_eq⟩
  · intro actions
    obtain ⟨t, ht, hstacks⟩ := runAll_agree (fun _ _ a h => SymbolTable.Stacks.act h a) actions
      SymbolTable.stacks_empty
    rw [runAll?_some, Option.some.injEq] at ht
    obtain ⟨i, hi, hindexes⟩ := runAll_agree (fun _ _ a h => IndexedTable.Indexes.act h a) actions
      IndexedTable.indexes_empty
    rw [ht] at hi hindexes
    have hentities := SymbolTable.entities_lists hstacks
    exact ⟨_, _, t, i, rfl, ht, hentities, hi, (IndexedTable.Indexes.entities_eq hindexes).trans hentities⟩

end ThreeAddress
