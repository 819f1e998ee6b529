import ThreeAddress.Proofs.Encounters

/-!
# Entities and where they were bound

A table holds the entities that are in view.  Each was bound at one place of the walk, and the state of a variable
tells whether an assignment has touched its binding.

* `Entity.BoundAt`, `Scope.Holds`, `SymbolTable.Holds` — an entity, a scope and a table hold what was bound;
* `SymbolTable.Holds.lookup` — a name means what was bound where the name means it;
* `SymbolTable.Holds.setState`, `SymbolTable.Holds.leave` — an assignment touches a binding;
* `SymbolTable.Holds.push`, `SymbolTable.Holds.pop`, `SymbolTable.Holds.define` — bodies and declarations.
-/

namespace ThreeAddress

/-! ### Scopes -/

/-- An entity of a name was bound at a place of the walk; if it is a variable, its state tells whether it is
untouched. -/
def Entity.BoundAt (past : List Encounter) (untouched : Nat → Prop) (x : String) (e : Entity) (place : Nat) : Prop :=
  ∃ role : Role, past[place]? = some (.binds role x) ∧ role.Has e ∧
    (role = .var → (e.isUntouched = true ↔ untouched place))

/-- A scope holds the names of some bindings, and no others. -/
def Scope.Holds (s : Scope) (past : List Encounter) (untouched : Nat → Prop) (scope : List (String × Nat)) : Prop :=
  ∀ x, Option.Rel (Entity.BoundAt past untouched x) (s.lookup? x) (scope.lookup x)

section Scopes

variable {past : List Encounter} {u u' : Nat → Prop} {x y : String} {e : Entity} {place : Nat} {s s' : Scope}
  {scope : List (String × Nat)}

theorem Entity.BoundAt.later (h : e.BoundAt past u x place) (more : List Encounter) :
    e.BoundAt (past ++ more) u x place := by
  obtain ⟨role, hat, hrest⟩ := h
  exact ⟨role, by rw [List.getElem?_append_left (List.getElem?_eq_some_iff.1 hat).1, hat], hrest⟩

/-- Only whether variables are untouched matters. -/
theorem Entity.BoundAt.congr (h : e.BoundAt past u x place)
    (hu : past[place]? = some (.binds .var x) → (u place ↔ u' place)) : e.BoundAt past u' x place := by
  obtain ⟨role, hat, hhas, hstate⟩ := h
  refine ⟨role, hat, hhas, fun hvar => ?_⟩
  rw [hstate hvar]
  exact hu (hvar ▸ hat)

/-- A place has one name. -/
theorem Entity.BoundAt.name_eq {e' : Entity} (h : e.BoundAt past u x place) (h' : e'.BoundAt past u y place) :
    x = y := by
  obtain ⟨role, hat, -⟩ := h
  obtain ⟨role', hat', -⟩ := h'
  rw [hat] at hat'
  cases hat'
  rfl

namespace Scope.Holds

theorem imp {past' : List Encounter} (h : s.Holds past u scope)
    (himp : ∀ x e place, scope.lookup x = some place → Entity.BoundAt past u x e place → e.BoundAt past' u' x place) :
    s.Holds past' u' scope := fun x => rel_imp (h x) fun e place => himp x e place

theorem lookup_none (h : s.Holds past u scope) (hx : s.lookup? x = none) : scope.lookup x = none := by
  have hr := h x
  rw [hx] at hr
  exact rel_none_left hr

theorem lookup_some (h : s.Holds past u scope) (hx : s.lookup? x = some e) :
    ∃ place, scope.lookup x = some place ∧ e.BoundAt past u x place := by
  have hr := h x
  rw [hx] at hr
  exact rel_some_left hr

theorem of_lookup (h : s.Holds past u scope) (hx : scope.lookup x = some place) :
    ∃ e, s.lookup? x = some e ∧ e.BoundAt past u x place := by
  have hr := h x
  rw [hx] at hr
  exact rel_some_right hr

/-- A new name is defined and bound. -/
theorem define (h : s.Holds past u scope) (hd : s.define e = .ok s') (hb : e.BoundAt past u e.name place) :
    s'.Holds past u (bindFirst scope e.name place) := by
  have hfree := h.lookup_none (define_eq_ok_iff.1 ⟨s', hd⟩)
  intro y
  rw [lookup_define hd, lookup_bindFirst]
  by_cases hy : y = e.name
  · rw [if_pos hy, if_pos ⟨hy, hfree⟩, hy]
    exact .some hb
  · rw [if_neg hy, if_neg fun h => hy h.1]
    exact h y

/-- A name that is taken is not bound again. -/
theorem define_error {existing : Entity} (h : s.Holds past u scope) (hd : s.define e = .error existing) (place : Nat) :
    bindFirst scope e.name place = scope := by
  have hbound : s.lookup? e.name ≠ none := by
    intro hnone
    obtain ⟨s', hs'⟩ := define_eq_ok_iff.2 hnone
    rw [hs'] at hd
    cases hd
  obtain ⟨found, hfound⟩ := Option.ne_none_iff_exists'.1 hbound
  obtain ⟨place', hplace, -⟩ := h.lookup_some hfound
  rw [bindFirst, hplace]
  rfl

/-- The state of a name is changed. -/
theorem setState {state : EntityState} (h : s.Holds past u scope)
    (hmarked : ∀ e place, s.lookup? x = some e → scope.lookup x = some place → Entity.BoundAt past u x e place →
      (e.withState state).BoundAt past u' x place)
    (hother : ∀ y e place, y ≠ x → Entity.BoundAt past u y e place → e.BoundAt past u' y place) :
    (s.setState x state).Holds past u' scope := by
  intro y
  rw [lookup_setState]
  by_cases hy : y = x
  · subst hy
    rw [if_pos rfl]
    cases hs : s.lookup? y with
    | none =>
      rw [h.lookup_none hs]
      exact .none
    | some e =>
      obtain ⟨place, hplace, hb⟩ := h.lookup_some hs
      rw [hplace]
      exact .some (hmarked e place hs hplace hb)
  · rw [if_neg hy]
    exact rel_imp (h y) fun e place _ hb => hother y e place hy hb

end Scope.Holds

end Scopes

/-! ### Tables -/

/-- The scopes that are open inside the global one hold the names of the body at hand. -/
inductive InnerHolds (past : List Encounter) (untouched : Nat → Prop) :
    List Scope → Option (List (String × Nat)) → Prop
  | global : InnerHolds past untouched [] none
  | body {s : Scope} {scope : List (String × Nat)} (h : s.Holds past untouched scope) :
    InnerHolds past untouched [s] (some scope)

/-- A table holds the names in view.  No binding is local and global. -/
structure SymbolTable.Holds (t : SymbolTable) (past : List Encounter) (b : Bindings) (untouched : Nat → Prop) :
    Prop where
  globals : t.globals.Holds past untouched b.globals
  inner : InnerHolds past untouched t.inner b.locals
  apart : ∀ scope ∈ b.locals, ∀ x place, scope.lookup x = some place → b.globals.lookup x ≠ some place

namespace SymbolTable.Holds

variable {past : List Encounter} {b : Bindings} {u u' : Nat → Prop} {x : String} {e : Entity} {t t' : SymbolTable}

theorem imp {past' : List Encounter} (h : t.Holds past b u)
    (himp : ∀ x e place, Entity.BoundAt past u x e place → e.BoundAt past' u' x place) : t.Holds past' b u' := by
  refine ⟨h.globals.imp fun x e place _ => himp x e place, ?_, h.apart⟩
  obtain ⟨inner, globals⟩ := t
  obtain ⟨locals, global⟩ := b
  cases h.inner with
  | global => exact .global
  | body hs => exact .body (hs.imp fun x e place _ => himp x e place)

/-- **Looking up.**  What a name means in a table was bound where the name means it. -/
theorem lookup (h : t.Holds past b u) (x : String) :
    Option.Rel (Entity.BoundAt past u x) (t.lookup? x) (b.find? x) := by
  obtain ⟨inner, globals⟩ := t
  obtain ⟨locals, global⟩ := b
  unfold SymbolTable.lookup? Bindings.find?
  have hglobal := h.globals x
  cases h.inner with
  | global => exact hglobal
  | @body s scope hs =>
    have hx := hs x
    simp only [List.findSome?_cons, List.findSome?_nil, Option.getD_some]
    generalize s.lookup? x = o at hx ⊢
    generalize scope.lookup x = o' at hx ⊢
    cases hx with
    | some hm => exact .some hm
    | none => exact hglobal

theorem lookup_some (h : t.Holds past b u) (hx : t.lookup? x = some e) :
    ∃ place, b.find? x = some place ∧ e.BoundAt past u x place := by
  have hr := h.lookup x
  rw [hx] at hr
  exact rel_some_left hr

theorem of_find (h : t.Holds past b u) {place : Nat} (hx : b.find? x = some place) :
    ∃ e, t.lookup? x = some e ∧ e.BoundAt past u x place := by
  have hr := h.lookup x
  rw [hx] at hr
  exact rel_some_right hr

/-- The state of what a name means is changed: then an assignment has touched its binding. -/
theorem setState (h : t.Holds past b u) (hx : t.lookup? x = some e) {state : EntityState} (hm : e.Moves state) :
    (t.setState x state).Holds past b fun place => u place ∧ b.find? x ≠ some place := by
  obtain ⟨place, hplace, hbound⟩ := h.lookup_some hx
  have hmarked {e' : Entity} (he : e' = e) : (e'.withState state).BoundAt past
      (fun place => u place ∧ b.find? x ≠ some place) x place := by
    subst he
    obtain ⟨role, hat, hhas, -⟩ := hbound
    have hmoved : (e'.withState state).isUntouched = false := beq_eq_false_iff_ne.2 hm.ne_declared
    exact ⟨role, hat, Entity.Next.has (.inr ⟨state, hm, rfl⟩) hhas, fun _ => by simp [hmoved, hplace]⟩
  have hother {y : String} {e' : Entity} {j : Nat} (hj : y = x → j ≠ place) (hb : e'.BoundAt past u y j) :
      e'.BoundAt past (fun place => u place ∧ b.find? x ≠ some place) y j := by
    refine hb.congr fun _ => ⟨fun hu => ⟨hu, fun hfound => ?_⟩, And.left⟩
    rw [hplace] at hfound
    cases hfound
    exact hj (hb.name_eq hbound) rfl
  have hglobals (hout : t.inner.findSome? (·.lookup? x) = none) (hglobal : b.globals.lookup x = some place) :
      (t.globals.setState x state).Holds past (fun place => u place ∧ b.find? x ≠ some place) b.globals := by
    rw [lookup?, hout] at hx
    refine h.globals.setState (fun e' j he' hj _ => ?_) fun y e' j hy hb => hother (fun h => absurd h hy) hb
    rw [hglobal] at hj
    cases hj
    exact hmarked (Option.some.inj (he'.symm.trans hx))
  obtain ⟨inner, globals⟩ := t
  obtain ⟨locals, global⟩ := b
  cases h.inner with
  | global => exact ⟨hglobals rfl hplace, .global, fun _ hs => by cases hs⟩
  | @body s scope hs =>
    have happart := h.apart scope rfl
    cases hl : s.lookup? x with
    | some found =>
      obtain ⟨j, hj, -⟩ := hs.lookup_some hl
      simp only [lookup?, List.findSome?_cons, hl, Option.some.injEq] at hx
      simp only [Bindings.find?, Option.getD_some, hj, Option.some.injEq] at hplace
      subst hx hplace
      rw [setState_inner hl]
      refine ⟨h.globals.imp fun y e' j' hj' hb => hother ?_ hb, .body ?_, h.apart⟩
      · rintro rfl rfl
        exact happart y _ hj hj'
      · refine hs.setState (fun e' j' he' hj' _ => ?_) fun y e' j' hy hb => hother (fun h => absurd h hy) hb
        rw [hj] at hj'
        cases hj'
        rw [hl] at he'
        cases he'
        exact hmarked rfl
    | none =>
      have hnone := hs.lookup_none hl
      simp only [Bindings.find?, Option.getD_some, hnone] at hplace
      rw [setState_outer hl]
      refine ⟨hglobals (by simp [hl]) hplace, .body (hs.imp fun y e' j hj hb => hother ?_ hb), h.apart⟩
      rintro rfl
      rw [hnone] at hj
      cases hj

/-- What no assignment can change may be left as it is. -/
theorem leave (h : t.Holds past b u) (hx : ∀ e, t.lookup? x = some e → e.isFunction = true ∨ e.isConstant = true) :
    t.Holds past b fun place => u place ∧ b.find? x ≠ some place := by
  refine h.imp fun y e place hb => hb.congr fun hvar => ⟨fun hu => ⟨hu, fun hfound => ?_⟩, And.left⟩
  obtain ⟨found, hlookup, role, hat, hhas, -⟩ := h.of_find hfound
  rw [hvar] at hat
  cases hat
  rcases hx found hlookup with hf | hc
  · exact absurd (hhas.function.1 hf) (by decide)
  · have hstate := hhas.state
    rw [beq_iff_eq.1 hc] at hstate
    exact absurd hstate (by decide)

/-- A function is marked as used. -/
theorem setGlobalState (h : t.Holds past b u) (hx : t.lookupGlobal? x = some e) (hf : e.isFunction = true)
    (state : EntityState) (hm : e.Moves state) : (t.setGlobalState x state).Holds past b u := by
  refine ⟨h.globals.setState (fun e' place he' _ hb => ?_) fun _ _ _ _ hb => hb, h.inner, h.apart⟩
  cases he'.symm.trans hx
  obtain ⟨role, hat, hhas, -⟩ := hb
  refine ⟨role, hat, Entity.Next.has (.inr ⟨state, hm, rfl⟩) hhas, fun hvar => ?_⟩
  rw [hvar] at hhas
  exact absurd (hhas.function.1 hf) (by decide)

/-- A body is entered. -/
theorem push (h : t.Holds past b u) (hb : b.locals = none) : t.push.Holds past { b with locals := some [] } u := by
  refine ⟨h.globals, ?_, fun scope hs x place hx => ?_⟩
  · obtain ⟨inner, globals⟩ := t
    obtain ⟨locals, global⟩ := b
    cases h.inner with
    | global => exact .body fun x => .none
    | body => cases hb
  · cases hs
    cases hx

/-- A body is left. -/
theorem pop (h : t.Holds past b u) {scope : List (String × Nat)} (hb : b.locals = some scope) :
    ∃ s t', t.pop? = some (s, t') ∧ t'.Holds past { b with locals := none } u := by
  obtain ⟨inner, globals⟩ := t
  obtain ⟨locals, global⟩ := b
  cases h.inner with
  | global => cases hb
  | @body s => exact ⟨s, _, rfl, h.globals, .global, fun _ hs => by cases hs⟩

/-- A name is bound among the globals, unless it is taken there. -/
theorem defineGlobal (h : t.Holds past b u) {place : Nat} (he : e.BoundAt past u e.name place)
    (hnew : BoundBefore place (b.locals.getD [])) :
    ((t.defineGlobal e).toOption.getD t).Holds past { b with globals := bindFirst b.globals e.name place } u := by
  unfold SymbolTable.defineGlobal
  cases hd : t.globals.define e with
  | ok g =>
    refine ⟨h.globals.define hd he, h.inner, fun scope hs x j hj hglobal => ?_⟩
    rw [lookup_bindFirst] at hglobal
    split at hglobal
    · cases hglobal
      refine Nat.lt_irrefl _ (hnew x _ ?_)
      rw [Option.mem_def.1 hs]
      exact hj
    · exact h.apart scope hs x j hj hglobal
  | error existing =>
    rw [h.globals.define_error hd]
    exact h

/-- A name is bound in the innermost scope, unless it is taken there. -/
theorem define (h : t.Holds past b u) {role : Role} (hf : role ≠ .func) {place : Nat}
    (he : e.BoundAt past u e.name place) (hlocals : BoundBefore place (b.locals.getD []))
    (hnew : BoundBefore place b.globals) :
    ((t.define e).toOption.getD t).Holds past (b.bind place role e.name) u := by
  rw [Bindings.bind, if_neg hf]
  have hglobal := h.defineGlobal he hlocals
  obtain ⟨inner, globals⟩ := t
  obtain ⟨locals, global⟩ := b
  cases h.inner with
  | global => exact hglobal
  | @body s scope hs =>
    have hdefine : (SymbolTable.mk [s] globals).define e = (s.define e).map fun s' => ⟨[s'], globals⟩ := rfl
    rw [hdefine]
    cases hd : s.define e with
    | ok s' =>
      refine ⟨h.globals, .body (hs.define hd he), fun scope' hs' x j hx hj => ?_⟩
      cases hs'
      rw [lookup_bindFirst] at hx
      split at hx
      · cases hx
        exact Nat.lt_irrefl _ (hnew x _ hj)
      · exact h.apart scope rfl x j hx hj
    | error existing =>
      dsimp only
      rw [hs.define_error hd]
      exact h

end SymbolTable.Holds

end ThreeAddress
