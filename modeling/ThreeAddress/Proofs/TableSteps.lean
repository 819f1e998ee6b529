import ThreeAddress.Proofs.Lookups

/-!
# How a table changes

While a program is checked, its table changes by small steps: a scope is opened or closed, or one scope takes up an
entity, or the state of one entity is changed.

* `Role`, `Role.states` — what an entity is bound as, and the states that it can come to;
* `Entity.Moves`, `Entity.Becomes` — the changes of state that an entity allows, and what stays of it;
* `Scope.Edit`, `SymbolTable.Edit`, `SymbolTable.Step` — the changes of scopes and tables;
* `SymbolTable.define_edit`, `SymbolTable.setState_edit` — the changes that checking makes;
* `SymbolTable.Sound` — names are distinct in each scope, and functions are global;
* `SymbolTable.Step.entity`, `SymbolTable.Step.keeps`, `SymbolTable.Step.sound` — what a step keeps.
-/

namespace ThreeAddress

/-! ### Roles -/

/-- What an entity is bound as. -/
inductive Role
  | var
  | const
  | param
  | func
deriving DecidableEq

/-- The entities that are bound in a role. -/
inductive Role.Binds : Role → Entity → Prop
  | var {x : String} {type : Ty} {s : Span} : Binds .var (.unassigned x type s)
  | const {x : String} {type : Ty} {s : Span} : Binds .const (.constant x type s)
  | param {x : String} {type : Ty} {s : Span} : Binds .param (.parameter x type s)
  | func {x : String} {result : Ty} {params : List Ty} {s : Span} : Binds .func (.function x result params s)

/-- The states that an entity in a role can come to. -/
def Role.states : Role → List EntityState
  | .var => [.declared, .assigned, .used]
  | .const => [.constant]
  | .param => [.parameter, .assigned, .used]
  | .func => [.declared, .used]

/-- A change of state that an entity allows: a function is used, and a variable or a parameter is assigned or
used. -/
inductive Entity.Moves (e : Entity) : EntityState → Prop
  | call (hf : e.isFunction = true) : Moves e .used
  | assign (hf : e.isFunction = false) (hc : e.isConstant = false) : Moves e .assigned
  | use (hf : e.isFunction = false) (hc : e.isConstant = false) : Moves e .used

/-- An entity stays as it is, or its state moves. -/
def Entity.Next (e e' : Entity) : Prop := e' = e ∨ ∃ state, e.Moves state ∧ e' = e.withState state

/-- What stays of an entity.  A constant stays a constant, and nothing goes back to be just declared. -/
structure Entity.Becomes (e e' : Entity) : Prop where
  name : e'.name = e.name
  kind : e'.kind = e.kind
  span : e'.span = e.span
  constant : e.isFunction = false → e.isConstant = true → e'.isConstant = true
  declared : e'.state = .declared → e.state = .declared

/-- An entity has a state of its role, and only functions are functions. -/
structure Role.Has (role : Role) (e : Entity) : Prop where
  state : e.state ∈ role.states
  function : e.isFunction = true ↔ role = .func

theorem Role.Binds.has {role : Role} {e : Entity} (h : role.Binds e) : role.Has e := by
  cases h <;> exact ⟨List.mem_cons_self, by simp [Entity.isFunction, Entity.unassigned, Entity.constant,
    Entity.parameter, Entity.function]⟩

theorem Entity.Moves.ne_declared {e : Entity} {state : EntityState} (h : e.Moves state) : state ≠ .declared := by
  cases h <;> decide

namespace Entity.Next

variable {e e' : Entity}

theorem becomes (h : e.Next e') : e.Becomes e' := by
  rcases h with rfl | ⟨state, hm, rfl⟩
  · exact ⟨rfl, rfl, rfl, fun _ => id, id⟩
  · refine ⟨rfl, rfl, rfl, fun hf hc => ?_, fun hd => (hm.ne_declared hd).elim⟩
    cases hm with
    | call hf' => rw [hf] at hf'; cases hf'
    | assign _ hc' | use _ hc' => rw [hc] at hc'; cases hc'

/-- A move stays within the states of a role. -/
theorem has {role : Role} (h : e.Next e') (hr : role.Has e) : role.Has e' := by
  rcases h with rfl | ⟨state, hm, rfl⟩
  · exact hr
  · refine ⟨?_, hr.function⟩
    have hvalue : e.isFunction = false → e.isConstant = false → role = .var ∨ role = .param := by
      intro hf hc
      cases role with
      | var => exact .inl rfl
      | param => exact .inr rfl
      | func => rw [hr.function.2 rfl] at hf; cases hf
      | const =>
        have hstate : e.state = .constant := by simpa [Role.states] using hr.state
        simp [Entity.isConstant, hstate] at hc
    show state ∈ role.states
    cases hm with
    | call hf =>
      rw [hr.function.1 hf]
      decide
    | assign hf hc | use hf hc =>
      rcases hvalue hf hc with rfl | rfl <;> decide

end Entity.Next

theorem Entity.Becomes.refl (e : Entity) : e.Becomes e := ⟨rfl, rfl, rfl, fun _ => id, id⟩

theorem Entity.Becomes.isFunction {e e' : Entity} (h : e.Becomes e') : e'.isFunction = e.isFunction := by
  rw [Entity.isFunction, Entity.isFunction, h.kind]

theorem Entity.Becomes.trans {e₁ e₂ e₃ : Entity} (h : e₁.Becomes e₂) (h' : e₂.Becomes e₃) : e₁.Becomes e₃ where
  name := h'.name.trans h.name
  kind := h'.kind.trans h.kind
  span := h'.span.trans h.span
  constant hf hc := h'.constant (h.isFunction.trans hf) (h.constant hf hc)
  declared hd := h.declared (h'.declared hd)

/-! ### Changes of a scope -/

/-- A change of one scope: an entity is bound, a function only in the global scope, or the state of an entity
moves. -/
inductive Scope.Edit (level : Nat) (s : Scope) : Scope → Prop
  | bind {role : Role} {e : Entity} {s' : Scope} (hr : role.Binds e) (hl : role = .func → level = 0)
      (h : s.define e = .ok s') : Edit level s s'
  | mark {x : String} {e : Entity} {state : EntityState} (hx : s.lookup? x = some e) (hm : e.Moves state) :
      Edit level s (s.setState x state)

namespace Scope

variable {s s' : Scope} {x : String} {e e' : Entity} {n level : Nat}

/-- What a name means stands at some place. -/
theorem exists_of_lookup (h : s.lookup? x = some e) : e.name = x ∧ e ∈ s.entities :=
  ⟨by simpa using List.find?_some h, List.mem_of_find?_eq_some h⟩

/-- In a scope without double names, an entity is what its name means. -/
theorem eq_of_lookup (hd : s.names.Nodup) (h : s.lookup? x = some e) (he : e' ∈ s.entities) (hx : e'.name = x) :
    e' = e := by
  obtain ⟨hname, hmem⟩ := exists_of_lookup h
  exact List.inj_on_of_nodup_map hd he hmem (hx.trans hname.symm)

theorem define_entities (h : s.define e = .ok s') : s'.entities = s.entities ++ [e] := by
  have hnone := define_eq_ok_iff.1 ⟨s', h⟩
  rw [define, hnone] at h
  cases h
  rfl

namespace Edit

theorem nodup (h : s.Edit level s') (hd : s.names.Nodup) : s'.names.Nodup := by
  cases h with
  | bind _ _ h =>
    obtain ⟨hfree, happend⟩ := names_define h
    rw [happend, List.nodup_append]
    refine ⟨hd, List.nodup_singleton _, fun x hx y hy hxy => ?_⟩
    rw [List.mem_singleton.1 hy] at hxy
    rw [hxy, ← List.contains_iff_mem, hfree] at hx
    cases hx
  | mark =>
    rw [names_setState]
    exact hd

/-- Behind a change, an entity is the next one of that at its place, or it was just bound there. -/
theorem entity (h : s.Edit level s') (hd : s.names.Nodup) (he : s'.entities[n]? = some e') :
    (∃ e, s.entities[n]? = some e ∧ e.Next e') ∨
      s.entities[n]? = none ∧ ∃ role : Role, role.Binds e' ∧ (role = .func → level = 0) := by
  cases h with
  | @bind role e s' hr hl h =>
    rw [define_entities h, List.getElem?_append] at he
    split at he
    · exact .inl ⟨e', he, .inl rfl⟩
    · rename_i hn
      rw [List.getElem?_singleton] at he
      split at he
      · cases he
        exact .inr ⟨List.getElem?_eq_none (by omega), role, hr, hl⟩
      · cases he
  | @mark x found state hx hm =>
    rw [setState, List.getElem?_map] at he
    obtain ⟨e, hn, rfl⟩ := Option.map_eq_some_iff.1 he
    refine .inl ⟨e, hn, ?_⟩
    by_cases hname : e.name = x
    · rw [if_pos hname]
      rw [eq_of_lookup hd hx (List.mem_of_getElem? hn) hname]
      exact .inr ⟨state, hm, rfl⟩
    · rw [if_neg hname]
      exact .inl rfl

/-- No entity leaves its place. -/
theorem keeps (h : s.Edit level s') (he : s.entities[n]? = some e) : ∃ e', s'.entities[n]? = some e' := by
  cases h with
  | bind _ _ h => exact ⟨e, by rw [define_entities h, List.getElem?_append_left (List.getElem?_eq_some_iff.1 he).1, he]⟩
  | mark => exact ⟨_, by rw [setState, List.getElem?_map, he]; rfl⟩

end Edit

end Scope

/-! ### Changes of a table -/

namespace SymbolTable

/-- The open scopes, the global one first. -/
def scopes (t : SymbolTable) : List Scope := t.globals :: t.inner.reverse

/-- The entity at some place of a scope. -/
def entityAt? (t : SymbolTable) (level place : Nat) : Option Entity :=
  (t.scopes[level]?).bind (·.entities[place]?)

/-- One scope is changed. -/
def Edit (t t' : SymbolTable) : Prop :=
  ∃ lower s s' upper, t.scopes = lower ++ s :: upper ∧ t'.scopes = lower ++ s' :: upper ∧ s.Edit lower.length s'

/-- A table is changed in one scope, or a scope is opened or closed. -/
inductive Step (t t' : SymbolTable) : Prop
  | edit (h : t.Edit t')
  | push (h : t'.scopes = t.scopes ++ [.empty])
  | pop {s : Scope} (h : t.scopes = t'.scopes ++ [s])

variable {t t' : SymbolTable} {x : String} {e : Entity}

theorem length_scopes (t : SymbolTable) : t.scopes.length = t.depth := by
  rw [scopes, List.length_cons, List.length_reverse, depth]

@[simp] theorem entityAt?_empty (level place : Nat) : SymbolTable.empty.entityAt? level place = none := by
  cases level <;> rfl

theorem entityAt?_lt {level place : Nat} (h : t.entityAt? level place = some e) : level < t.depth := by
  obtain ⟨s, hs, -⟩ := Option.bind_eq_some_iff.1 h
  rw [← t.length_scopes]
  exact (List.getElem?_eq_some_iff.1 hs).1

/-! #### The changes that checking makes -/

theorem scopes_cons (s : Scope) (outer : List Scope) (globals : Scope) :
    (SymbolTable.mk (s :: outer) globals).scopes = (globals :: outer.reverse) ++ [s] := by
  rw [scopes, List.reverse_cons, List.cons_append]

/-- An entity other than a function is defined in the innermost scope. -/
theorem define_edit {role : Role} (hr : role.Binds e) (hf : role ≠ .func) (h : t.define e = .ok t') :
    t.Edit t' := by
  obtain ⟨inner, globals⟩ := t
  cases inner with
  | nil =>
    obtain ⟨g, hg, rfl⟩ := Except.map_eq_ok h
    exact ⟨[], globals, g, [], rfl, rfl, .bind hr (fun h => (hf h).elim) hg⟩
  | cons s outer =>
    obtain ⟨s', hs', rfl⟩ := Except.map_eq_ok h
    exact ⟨_, s, s', [], scopes_cons _ _ _, scopes_cons _ _ _, .bind hr (fun h => (hf h).elim) hs'⟩

/-- A function is defined among the globals. -/
theorem defineGlobal_edit {role : Role} (hr : role.Binds e) (h : t.defineGlobal e = .ok t') : t.Edit t' := by
  obtain ⟨g, hg, rfl⟩ := Except.map_eq_ok h
  exact ⟨[], t.globals, g, t.inner.reverse, rfl, rfl, .bind hr (fun _ => rfl) hg⟩

theorem setGlobalState_edit {state : EntityState} (hx : t.lookupGlobal? x = some e) (hm : e.Moves state) :
    t.Edit (t.setGlobalState x state) :=
  ⟨[], t.globals, _, t.inner.reverse, rfl, rfl, .mark hx hm⟩

/-- In the innermost scope that defines a name, its state is changed. -/
theorem setStateIn_eq (state : EntityState) {scopes : List Scope}
    (h : scopes.findSome? (·.lookup? x) = some e) : ∃ before s behind, scopes = before ++ s :: behind ∧
      s.lookup? x = some e ∧ setStateIn x state scopes = some (before ++ s.setState x state :: behind) := by
  induction scopes with
  | nil => cases h
  | cons s outer ih =>
    rw [List.findSome?_cons] at h
    cases hs : s.lookup? x with
    | some e' =>
      rw [hs] at h
      cases h
      exact ⟨[], s, outer, rfl, hs, by rw [setStateIn, s.contains_eq, hs]; rfl⟩
    | none =>
      rw [hs] at h
      obtain ⟨before, s', behind, rfl, hs', hset⟩ := ih h
      exact ⟨s :: before, s', behind, rfl, hs', by rw [setStateIn, s.contains_eq, hs, hset]; rfl⟩

theorem setStateIn_eq_none {state : EntityState} {scopes : List Scope}
    (h : scopes.findSome? (·.lookup? x) = none) : setStateIn x state scopes = none := by
  induction scopes with
  | nil => rfl
  | cons s outer ih =>
    rw [List.findSome?_cons] at h
    cases hs : s.lookup? x with
    | some e' => rw [hs] at h; cases h
    | none =>
      rw [hs] at h
      rw [setStateIn, s.contains_eq, hs, ih h]
      rfl

/-- The state of what a name means is changed. -/
theorem setState_edit {state : EntityState} (hx : t.lookup? x = some e) (hm : e.Moves state) :
    t.Edit (t.setState x state) := by
  unfold lookup? at hx
  unfold setState
  cases hin : t.inner.findSome? (·.lookup? x) with
  | none =>
    rw [hin] at hx
    rw [setStateIn_eq_none hin]
    exact setGlobalState_edit hx hm
  | some e' =>
    rw [hin] at hx
    cases hx
    obtain ⟨before, s, behind, hinner, hs, hset⟩ := setStateIn_eq state hin
    rw [hset]
    refine ⟨t.globals :: behind.reverse, s, s.setState x state, before.reverse, ?_, ?_, .mark hs hm⟩
    · simp [scopes, hinner]
    · simp [scopes]

theorem push_step (t : SymbolTable) : t.Step t.push := .push (by simp [scopes, push])

theorem pop_step {s : Scope} (h : t.pop? = some (s, t')) : t.Step t' := by
  obtain ⟨inner, globals⟩ := t
  cases inner with
  | nil => cases h
  | cons s' outer =>
    cases h
    exact .pop (scopes_cons _ _ _)

theorem depth_push (t : SymbolTable) : t.push.depth = t.depth + 1 := rfl

/-- Inside the global scope, there is one to be closed. -/
theorem pop?_of_depth {n : Nat} (h : t.depth = n + 1) (hn : 0 < n) :
    ∃ scope outer, t.pop? = some (scope, outer) ∧ outer.depth = n := by
  obtain ⟨inner, globals⟩ := t
  cases inner with
  | nil => simp only [depth, List.length_nil] at h; omega
  | cons s outer => exact ⟨s, ⟨outer, globals⟩, rfl, Nat.succ.inj h⟩

/-! ### What a step keeps -/

/-- Names are distinct in each scope, and functions are global. -/
structure Sound (t : SymbolTable) : Prop where
  distinct : ∀ s ∈ t.scopes, s.names.Nodup
  functions : ∀ level place e, t.entityAt? level place = some e → e.isFunction = true → level = 0

theorem Sound.empty : SymbolTable.empty.Sound := by
  refine ⟨fun s hs => ?_, fun level place e he => ?_⟩
  · rw [List.mem_singleton.1 hs]
    exact List.nodup_nil
  · rw [entityAt?_empty] at he
    cases he

/-- What a scope holds behind a change. -/
theorem getElem?_scopes_edit {lower upper : List Scope} {s s' : Scope} (level : Nat)
    (ht : t.scopes = lower ++ s :: upper) (ht' : t'.scopes = lower ++ s' :: upper) :
    level = lower.length ∧ t.scopes[level]? = some s ∧ t'.scopes[level]? = some s' ∨
      t'.scopes[level]? = t.scopes[level]? := by
  rw [ht, ht']
  rcases Nat.lt_trichotomy level lower.length with hlt | rfl | hlt
  · exact .inr (by rw [List.getElem?_append_left hlt, List.getElem?_append_left hlt])
  · exact .inl ⟨rfl, by simp, by simp⟩
  · refine .inr ?_
    obtain ⟨k, rfl⟩ := Nat.exists_eq_add_of_lt hlt
    rw [List.getElem?_append_right (by omega), List.getElem?_append_right (by omega),
      show lower.length + k + 1 - lower.length = k + 1 by omega, List.getElem?_cons_succ, List.getElem?_cons_succ]

namespace Step

variable {e' : Entity} {level place : Nat}

/-- Behind a step, an entity is the next one of that at its place, or it was just bound there. -/
theorem entity (h : t.Step t') (ht : t.Sound) (he : t'.entityAt? level place = some e') :
    (∃ e, t.entityAt? level place = some e ∧ e.Next e') ∨
      t.entityAt? level place = none ∧ ∃ role : Role, role.Binds e' ∧ (role = .func → level = 0) := by
  cases h with
  | edit h =>
    obtain ⟨lower, s, s', upper, hs, hs', hedit⟩ := h
    rcases getElem?_scopes_edit level hs hs' with ⟨rfl, hl, hl'⟩ | heq
    · rw [entityAt?, hl', Option.bind_some] at he
      rw [entityAt?, hl, Option.bind_some]
      exact hedit.entity (ht.distinct s (List.mem_of_getElem? hl)) he
    · rw [entityAt?, heq] at he
      exact .inl ⟨e', he, .inl rfl⟩
  | push h =>
    rw [entityAt?, h, List.getElem?_append] at he
    split at he
    · exact .inl ⟨e', he, .inl rfl⟩
    · obtain ⟨s, hs, he⟩ := Option.bind_eq_some_iff.1 he
      rw [List.mem_singleton.1 (List.mem_of_getElem? hs)] at he
      cases he
  | @pop s h =>
    refine .inl ⟨e', ?_, .inl rfl⟩
    rw [entityAt?, h, List.getElem?_append_left (t'.length_scopes ▸ entityAt?_lt he)]
    exact he

/-- While its scope stays open, an entity stays at its place and is only moved. -/
theorem keeps (h : t.Step t') (ht : t.Sound) (hopen : level < t'.depth) (he : t.entityAt? level place = some e) :
    ∃ e', t'.entityAt? level place = some e' ∧ e.Next e' := by
  have hplace : ∃ e', t'.entityAt? level place = some e' := by
    cases h with
    | edit h =>
      obtain ⟨lower, s, s', upper, hs, hs', hedit⟩ := h
      rcases getElem?_scopes_edit level hs hs' with ⟨rfl, hl, hl'⟩ | heq
      · rw [entityAt?, hl, Option.bind_some] at he
        rw [entityAt?, hl', Option.bind_some]
        exact hedit.keeps he
      · exact ⟨e, by rw [entityAt?, heq]; exact he⟩
    | push h =>
      refine ⟨e, ?_⟩
      rw [entityAt?, h, List.getElem?_append_left (t.length_scopes ▸ entityAt?_lt he)]
      exact he
    | pop h =>
      rw [entityAt?, h, List.getElem?_append_left (t'.length_scopes ▸ hopen)] at he
      exact ⟨e, he⟩
  obtain ⟨e', he'⟩ := hplace
  refine ⟨e', he', ?_⟩
  rcases h.entity ht he' with ⟨e₀, he₀, hnext⟩ | ⟨hnone, -⟩
  · cases he.symm.trans he₀
    exact hnext
  · rw [he] at hnone
    cases hnone

/-- **One step.**  Names stay distinct in each scope, and functions global. -/
theorem sound (h : t.Step t') (ht : t.Sound) : t'.Sound := by
  refine ⟨fun s hs => ?_, fun level place e he hf => ?_⟩
  · cases h with
    | edit h =>
      obtain ⟨lower, s₀, s₁, upper, hs₀, hs₁, hedit⟩ := h
      have hdistinct : ∀ s ∈ lower ++ s₀ :: upper, s.names.Nodup := fun s hs => ht.distinct s (hs₀ ▸ hs)
      rw [hs₁] at hs
      rcases List.mem_append.1 hs with hs | hs
      · exact hdistinct s (List.mem_append_left _ hs)
      · rcases List.mem_cons.1 hs with rfl | hs
        · exact hedit.nodup (hdistinct s₀ (by simp))
        · exact hdistinct s (by simp [hs])
    | push h =>
      rw [h] at hs
      rcases List.mem_append.1 hs with hs | hs
      · exact ht.distinct s hs
      · rw [List.mem_singleton.1 hs]
        exact List.nodup_nil
    | pop h => exact ht.distinct s (by rw [h]; exact List.mem_append_left _ hs)
  · rcases h.entity ht he with ⟨e₀, he₀, hnext⟩ | ⟨-, role, hr, hl⟩
    · exact ht.functions level place e₀ he₀ (hnext.becomes.isFunction.symm.trans hf)
    · exact hl (hr.has.function.1 hf)

end Step

/-- A change of one scope opens and closes none. -/
theorem Edit.depth_eq (h : t.Edit t') : t'.depth = t.depth := by
  obtain ⟨lower, s, s', upper, hs, hs', -⟩ := h
  rw [← length_scopes, ← length_scopes, hs, hs']
  simp

end SymbolTable

end ThreeAddress
