import ThreeAddress.Checking.Program
import ThreeAddress.Proofs.Correspondence
import ThreeAddress.Proofs.WellFormed

/-!
# Symbol tables and views

A symbol table shows a view if each name means the same in both, and if the state of an entity tells
whether its variable was assigned.

* `Entity.Means`, `Scope.Shows`, `SymbolTable.Shows` — an entity, a scope and a table against a view;
* `SymbolTable.Shows.lookup`, `SymbolTable.Shows.lookupGlobal` — looking up a name gives the same in both;
* `SymbolTable.Shows.define`, `SymbolTable.Shows.setState` and the like — what each change of a table is in
  the view.
-/

namespace ThreeAddress

/-- An entity stands for a binding; `assigned` tells whether an assignment has reached it. -/
def Entity.Means (e : Entity) : Binding → Prop → Prop
  | .var type, assigned =>
    e.kind = .value type ∧ e.state ≠ .constant ∧ (e.state ≠ .declared ↔ assigned)
  | .param type, _ => e.kind = .value type ∧ e.state ≠ .constant ∧ e.state ≠ .declared
  | .const type, _ => e.kind = .value type ∧ e.state = .constant
  | .func result params, _ => e.kind = .function result params

/-- A scope shows bindings: each name means the same in both. -/
def Scope.Shows (s : Scope) (bs : List (String × Binding)) (assigned : String → Prop) : Prop :=
  ∀ x, Option.Rel (fun e b => e.Means b (assigned x)) (s.lookup? x) (bs.lookup x)

/-- The open scopes inside the global one show the local bindings of a view. -/
inductive InnerShows (v : View) : List Scope → Prop
  | global (hl : v.locals = none) : InnerShows v []
  | body {s : Scope} {bs : List (String × Binding)} (hl : v.locals = some bs)
      (h : s.Shows bs fun x => (.inner, x) ∈ v.assigned) : InnerShows v [s]

/-- A table shows a view.  Only what is bound can have been assigned. -/
structure SymbolTable.Shows (t : SymbolTable) (v : View) : Prop where
  globals : t.globals.Shows v.globals fun x => (.outer, x) ∈ v.assigned
  inner : InnerShows v t.inner
  bound : ∀ place x, (place, x) ∈ v.assigned → (v.scope place).lookup x ≠ none

/-! ### Scopes -/

namespace Scope

theorem lookup_define {s s' : Scope} {e : Entity} (h : s.define e = .ok s') (x : String) :
    s'.lookup? x = if x = e.name then some e else s.lookup? x := by
  unfold define at h
  split at h
  · cases h
  · rename_i hn
    cases h
    simp only [lookup?, List.find?_append]
    by_cases hx : x = e.name
    · subst hx
      simp only [lookup?] at hn
      simp [hn]
    · rw [if_neg hx]
      have hb : (e.name == x) = false := by simpa using fun h => hx h.symm
      simp [hb]

theorem define_eq_ok_iff {s : Scope} {e : Entity} :
    (∃ s', s.define e = .ok s') ↔ s.lookup? e.name = none := by
  unfold define
  split
  · rename_i existing h
    simp [h]
  · rename_i h
    simp [h]

theorem lookup_setState (s : Scope) (name : String) (state : EntityState) (x : String) :
    (s.setState name state).lookup? x =
      if x = name then (s.lookup? x).map (·.withState state) else s.lookup? x := by
  unfold setState lookup?
  rw [List.find?_map]
  have hname : ∀ e : Entity, (((fun e' : Entity => e'.name == x) ∘
      fun e => if e.name = name then e.withState state else e) e) = (e.name == x) := by
    intro e
    simp only [Function.comp]
    split <;> rfl
  simp only [funext hname]
  cases hf : s.entities.find? (·.name == x) with
  | none => simp
  | some e =>
    have he : e.name = x := by simpa using List.find?_some hf
    simp only [Option.map_some, he]
    split <;> rfl

theorem contains_eq (s : Scope) (x : String) : s.contains x = (s.lookup? x).isSome := by
  rw [Bool.eq_iff_iff]
  simp [contains, lookup?, List.find?_isSome]

variable {s s' : Scope} {bs : List (String × Binding)} {A : String → Prop}

theorem Shows.congr {B : String → Prop} (h : s.Shows bs A) (hB : ∀ x, B x ↔ A x) : s.Shows bs B := by
  rw [show B = A from funext fun x => propext (hB x)]
  exact h

theorem Shows.lookup_none (h : s.Shows bs A) {x : String} (hx : s.lookup? x = none) :
    bs.lookup x = none := by
  have hr := h x
  rw [hx] at hr
  exact rel_none_left hr

theorem Shows.of_none (h : s.Shows bs A) {x : String} (hx : bs.lookup x = none) :
    s.lookup? x = none := by
  have hr := h x
  rw [hx] at hr
  exact rel_none_right hr

theorem Shows.lookup_some (h : s.Shows bs A) {x : String} {e : Entity} (hx : s.lookup? x = some e) :
    ∃ b, bs.lookup x = some b ∧ e.Means b (A x) := by
  have hr := h x
  rw [hx] at hr
  exact rel_some_left hr

theorem Shows.of_some (h : s.Shows bs A) {x : String} {b : Binding} (hx : bs.lookup x = some b) :
    ∃ e, s.lookup? x = some e ∧ e.Means b (A x) := by
  have hr := h x
  rw [hx] at hr
  obtain ⟨e, he, hm⟩ := rel_some_right hr
  exact ⟨e, he, hm⟩

/-- A fresh entity is defined in front of the bindings. -/
theorem Shows.define (h : s.Shows bs A) {e : Entity} (hd : s.define e = .ok s') {b : Binding}
    (hm : e.Means b (A e.name)) : s'.Shows ((e.name, b) :: bs) A := by
  intro x
  rw [lookup_define hd, List.lookup_cons]
  by_cases hx : x = e.name
  · subst hx
    simp only [if_pos, beq_self_eq_true]
    exact .some hm
  · rw [if_neg hx, show (x == e.name) = false from by simpa using hx]
    exact h x

/-- A state is changed where the new state still means the binding. -/
theorem Shows.setState {B : String → Prop} (h : s.Shows bs A) {name : String} {state : EntityState}
    (hother : ∀ x, x ≠ name → (B x ↔ A x))
    (hm : ∀ (e : Entity) b, bs.lookup name = some b → e.Means b (A name) →
      (e.withState state).Means b (B name)) :
    (s.setState name state).Shows bs B := by
  intro x
  have hx := h x
  rw [lookup_setState]
  by_cases hn : x = name
  · subst hn
    rw [if_pos rfl]
    cases hl : s.lookup? x with
    | none =>
      rw [h.lookup_none hl]
      exact .none
    | some e =>
      obtain ⟨b, hb, he⟩ := h.lookup_some hl
      rw [hb]
      exact .some (hm e b hb he)
  · rw [if_neg hn]
    cases hl : s.lookup? x with
    | none =>
      rw [h.lookup_none hl]
      exact .none
    | some e =>
      obtain ⟨b, hb, he⟩ := h.lookup_some hl
      rw [hb, propext (hother x hn)]
      exact .some he

end Scope

/-! ### Tables -/

theorem View.find?_inner {v : View} {x : String} {b : Binding}
    (h : (v.scope .inner).lookup x = some b) : v.find? x = some (.inner, b) := by
  rw [find?, h]

theorem View.find?_outer {v : View} {x : String} (h : (v.scope .inner).lookup x = none) :
    v.find? x = (v.globals.lookup x).map fun b => (.outer, b) := by
  rw [find?, h]

/-- The bindings of the innermost scope. -/
def View.here (v : View) : List (String × Binding) := v.locals.getD v.globals

theorem lookup_cons_ne_none {x y : String} {b : Binding} {bs : List (String × Binding)}
    (h : bs.lookup y ≠ none) : ((x, b) :: bs).lookup y ≠ none := by
  rw [List.lookup_cons]
  split
  · simp
  · exact h

/-- What is found behind a new entry is that entry, or was found before. -/
theorem lookup_cons_eq_some {x y : String} {b b' : Binding} {bs : List (String × Binding)}
    (h : ((x, b) :: bs).lookup y = some b') : (y = x ∧ b' = b) ∨ bs.lookup y = some b' := by
  rw [List.lookup_cons] at h
  split at h
  · rename_i heq
    exact .inl ⟨beq_iff_eq.1 heq, (Option.some.inj h).symm⟩
  · exact .inr h

/-- What a name means is bound in the scope that is found. -/
theorem View.lookup_of_find? {v : View} {x : String} {place : Place} {b : Binding}
    (h : v.find? x = some (place, b)) : (v.scope place).lookup x = some b := by
  cases hl : (v.scope .inner).lookup x with
  | some b' =>
    rw [find?_inner hl] at h
    cases h
    exact hl
  | none =>
    rw [find?_outer hl] at h
    obtain ⟨b', hb, hp⟩ := Option.map_eq_some_iff.1 h
    cases hp
    exact hb

namespace SymbolTable

variable {s globals : Scope} {x : String}

/-- What a body defines has its state changed there. -/
theorem setState_inner {e : Entity} (hx : s.lookup? x = some e) (state : EntityState) :
    (SymbolTable.mk [s] globals).setState x state = ⟨[s.setState x state], globals⟩ := by
  simp [setState, setStateIn, Scope.contains_eq, hx]

/-- What it does not define has its state changed among the globals. -/
theorem setState_outer (hx : s.lookup? x = none) (state : EntityState) :
    (SymbolTable.mk [s] globals).setState x state = ⟨[s], globals.setState x state⟩ := by
  simp [setState, setStateIn, setGlobalState, Scope.contains_eq, hx]

end SymbolTable

namespace SymbolTable.Shows

variable {t t' : SymbolTable} {v w : View} {x : String}

/-- **Looking up.**  A name means the same in a table and in the view that it shows. -/
theorem lookup (h : t.Shows v) (x : String) :
    Option.Rel (fun e (p : Place × Binding) => e.Means p.2 ((p.1, x) ∈ v.assigned))
      (t.lookup? x) (v.find? x) := by
  have hg := h.globals x
  have hglobal : Option.Rel (fun e (p : Place × Binding) => e.Means p.2 ((p.1, x) ∈ v.assigned))
      (t.globals.lookup? x) ((v.globals.lookup x).map fun b => (Place.outer, b)) := by
    generalize t.globals.lookup? x = o at hg ⊢
    generalize v.globals.lookup x = o' at hg ⊢
    cases hg with
    | some hm => exact .some hm
    | none => exact .none
  cases t with
  | mk inner globals =>
    unfold SymbolTable.lookup? View.find?
    cases h.inner with
    | global hl =>
      rw [View.scope, hl]
      exact hglobal
    | @body s bs hl hs =>
      have hx := hs x
      simp only [List.findSome?_cons, List.findSome?_nil, View.scope, hl, Option.getD_some]
      generalize s.lookup? x = o at hx ⊢
      generalize bs.lookup x = o' at hx ⊢
      cases hx with
      | some hm => exact .some hm
      | none => exact hglobal

theorem lookup_some (h : t.Shows v) {e : Entity} (hx : t.lookup? x = some e) :
    ∃ place b, v.find? x = some (place, b) ∧ e.Means b ((place, x) ∈ v.assigned) := by
  have hr := h.lookup x
  rw [hx] at hr
  obtain ⟨⟨place, b⟩, hfind, hm⟩ := rel_some_left hr
  exact ⟨place, b, hfind, hm⟩

theorem of_find (h : t.Shows v) {place : Place} {b : Binding} (hx : v.find? x = some (place, b)) :
    ∃ e, t.lookup? x = some e ∧ e.Means b ((place, x) ∈ v.assigned) := by
  have hr := h.lookup x
  rw [hx] at hr
  obtain ⟨e, he, hm⟩ := rel_some_right hr
  exact ⟨e, he, hm⟩

/-- A function that is called is marked; what its name means stays. -/
theorem setGlobalState (h : t.Shows v) {result : Ty} {params : List Ty}
    (hx : v.globals.lookup x = some (.func result params)) (state : EntityState) :
    (t.setGlobalState x state).Shows v := by
  refine ⟨h.globals.setState (fun _ _ => Iff.rfl) ?_, h.inner, h.bound⟩
  intro e b hb hm
  rw [hx] at hb
  cases hb
  exact hm

/-- The state of what a name means is changed; the view follows. -/
theorem setState (h : t.Shows v) {place : Place} {b : Binding} (hx : v.find? x = some (place, b))
    {state : EntityState} {assigned : List (Place × String)}
    (hother : ∀ p y, (p, y) ≠ (place, x) → ((p, y) ∈ assigned ↔ (p, y) ∈ v.assigned))
    (hm : ∀ e : Entity, e.Means b ((place, x) ∈ v.assigned) →
      (e.withState state).Means b ((place, x) ∈ assigned)) :
    (t.setState x state).Shows { v with assigned := assigned } := by
  have hbound : ∀ p y, (p, y) ∈ assigned → (v.scope p).lookup y ≠ none := by
    intro p y hy
    by_cases hpy : (p, y) = (place, x)
    · cases hpy
      rw [View.lookup_of_find? hx]
      simp
    · exact h.bound p y ((hother p y hpy).1 hy)
  -- the scope that defines the name is changed, the other one only sees the new view
  have hglobals (hp : place = .outer) :
      (t.globals.setState x state).Shows v.globals fun y => (.outer, y) ∈ assigned := by
    subst hp
    refine h.globals.setState (fun y hy => hother _ y (by simpa using hy)) ?_
    intro e b' hb' he
    cases hb'.symm.trans (View.lookup_of_find? hx)
    exact hm e he
  cases t with
  | mk inner globals =>
    cases h.inner with
    | global hl =>
      rw [View.find?_outer (by rw [View.scope, hl]; rfl)] at hx
      obtain ⟨b', hb, hp⟩ := Option.map_eq_some_iff.1 hx
      cases hp
      exact ⟨hglobals rfl, .global hl, hbound⟩
    | @body s bs hl hs =>
      have hscope : v.scope .inner = bs := by rw [View.scope, hl]; rfl
      cases hlx : bs.lookup x with
      | some b' =>
        rw [View.find?_inner (hscope ▸ hlx)] at hx
        cases hx
        obtain ⟨e, he, -⟩ := hs.of_some hlx
        rw [setState_inner he]
        refine ⟨h.globals.congr fun y => hother _ y (by simp), .body hl ?_, hbound⟩
        refine hs.setState (fun y hy => hother _ y (by simpa using hy)) ?_
        intro e b'' hb'' hme
        cases hb''.symm.trans hlx
        exact hm e hme
      | none =>
        rw [View.find?_outer (hscope ▸ hlx)] at hx
        obtain ⟨b', hb, hp⟩ := Option.map_eq_some_iff.1 hx
        cases hp
        rw [setState_outer (hs.of_none hlx)]
        exact ⟨hglobals rfl, .body hl (hs.congr fun y => hother _ y (by simp)), hbound⟩

/-- The target of an assignment counts as assigned. -/
theorem assign (h : t.Shows v) {type : Ty} (hx : v.Writable x type) :
    (t.setState x .assigned).Shows (v.assign x) := by
  have hassign {place : Place} {b : Binding} (hf : v.find? x = some (place, b)) :
      v.assign x = { v with assigned := (place, x) :: v.assigned } := by
    rw [View.assign, hf]
  cases hx with
  | param hf =>
    rw [hassign hf]
    refine h.setState hf (fun p y hpy => by simp [hpy]) fun e he => ?_
    exact ⟨he.1, by simp [Entity.withState], by simp [Entity.withState]⟩
  | var hf =>
    rw [hassign hf]
    refine h.setState hf (fun p y hpy => by simp [hpy]) fun e he => ?_
    exact ⟨he.1, by simp [Entity.withState], by simp [Entity.withState]⟩

/-- A variable or parameter that may be read is marked as used. -/
theorem markUsed (h : t.Shows v) {type : Ty} (hx : v.Readable x type) {e : Entity}
    (he : t.lookup? x = some e) (hc : e.isConstant = false) : (t.setState x .used).Shows v := by
  cases hx with
  | const hf =>
    obtain ⟨e', he', -, hs⟩ := h.of_find hf
    cases he'.symm.trans he
    simp [Entity.isConstant, hs] at hc
  | param hf =>
    refine h.setState hf (fun p y _ => Iff.rfl) fun e he => ?_
    exact ⟨he.1, by simp [Entity.withState], by simp [Entity.withState]⟩
  | var hf ha =>
    refine h.setState hf (fun p y _ => Iff.rfl) fun e he => ?_
    exact ⟨he.1, by simp [Entity.withState], by simp [Entity.withState, ha]⟩

/-- A fresh entity is declared. -/
theorem define (h : t.Shows v) {e : Entity} {b : Binding} (hd : t.define e = .ok t')
    (hm : e.Means b False) : t'.Shows (v.declare e.name b) := by
  cases t with
  | mk inner globals =>
    cases h.inner with
    | global hl =>
      obtain ⟨g, hg, ht⟩ := Except.map_eq_ok hd
      subst ht
      have hfresh := Scope.define_eq_ok_iff.1 ⟨g, hg⟩
      have hna : (Place.outer, e.name) ∉ v.assigned := fun ha =>
        h.bound _ _ ha (h.globals.lookup_none hfresh)
      rw [View.declare, hl]
      refine ⟨h.globals.define hg (by simpa only [hna] using hm), .global rfl, ?_⟩
      intro p y hy
      have hb := h.bound p y hy
      cases p with
      | inner => exact absurd (by rw [View.scope, hl]; rfl) hb
      | outer => exact lookup_cons_ne_none hb
    | @body s bs hl hs =>
      obtain ⟨s', hs', ht⟩ := Except.map_eq_ok hd
      subst ht
      have hscope : v.scope .inner = bs := by rw [View.scope, hl]; rfl
      have hfresh := Scope.define_eq_ok_iff.1 ⟨s', hs'⟩
      have hna : (Place.inner, e.name) ∉ v.assigned := fun ha =>
        h.bound _ _ ha (hscope ▸ hs.lookup_none hfresh)
      rw [View.declare, hl]
      refine ⟨h.globals, .body rfl (hs.define hs' (by simpa only [hna] using hm)), ?_⟩
      intro p y hy
      have hb := h.bound p y hy
      cases p with
      | outer => exact hb
      | inner => exact lookup_cons_ne_none (hscope ▸ hb)

/-- An entity can be declared if its name is not bound in the innermost scope. -/
theorem define_ok_iff (h : t.Shows v) {e : Entity} :
    (∃ t', t.define e = .ok t') ↔ v.here.lookup e.name = none := by
  cases t with
  | mk inner globals =>
    cases h.inner with
    | global hl =>
      rw [View.here, hl]
      refine Iff.trans ?_ (Iff.trans Scope.define_eq_ok_iff ⟨h.globals.lookup_none, h.globals.of_none⟩)
      exact Except.exists_map_eq_ok
    | @body s bs hl hs =>
      rw [View.here, hl]
      refine Iff.trans ?_ (Iff.trans Scope.define_eq_ok_iff ⟨hs.lookup_none, hs.of_none⟩)
      exact Except.exists_map_eq_ok

/-- A body is entered: a scope is opened. -/
theorem push (h : t.Shows v) (hl : v.locals = none) : t.push.Shows v.enter := by
  cases t with
  | mk inner globals =>
    cases h.inner with
    | body hl' => rw [hl] at hl'; cases hl'
    | global =>
      refine ⟨h.globals, .body rfl fun x => .none, ?_⟩
      intro p y hy
      cases p with
      | outer => exact h.bound _ _ hy
      | inner => exact absurd (by rw [View.scope, hl]; rfl) (h.bound _ _ hy)

/-- A body is left: its scope is closed. -/
theorem pop (h : t.Shows v) {bs : List (String × Binding)} (hl : v.locals = some bs) :
    ∃ s t', t.pop? = some (s, t') ∧ t'.Shows v.leave := by
  cases t with
  | mk inner globals =>
    cases h.inner with
    | global hl' => rw [hl] at hl'; cases hl'
    | @body s =>
      refine ⟨s, _, rfl, ?_, .global rfl, ?_⟩
      · exact h.globals.congr fun x => by simp [View.leave]
      · intro p y hy
        obtain ⟨hy, hp⟩ := List.mem_filter.1 hy
        cases p with
        | outer => exact h.bound _ _ hy
        | inner => exact absurd hp (by simp)

/-- No scope but the global one is open outside of bodies. -/
theorem inner_eq_nil (h : t.Shows v) (hl : v.locals = none) : t.inner = [] := by
  cases t with
  | mk inner globals =>
    cases h.inner with
    | global => rfl
    | body hl' => rw [hl] at hl'; cases hl'

/-- Nothing is declared at the beginning. -/
theorem empty : SymbolTable.empty.Shows .empty :=
  ⟨fun _ => .none, .global rfl, fun _ _ h => absurd h List.not_mem_nil⟩

/-- A name may be read if it is an entity of that type that something has happened to. -/
theorem readable_iff (h : t.Shows v) {type : Ty} :
    (∃ e, t.lookup? x = some e ∧ e.valueType? = some type ∧ e.isUntouched = false) ↔
      v.Readable x type := by
  constructor
  · rintro ⟨e, he, htype, hu⟩
    obtain ⟨place, b, hb, hm⟩ := h.lookup_some he
    simp only [Entity.isUntouched, beq_eq_false_iff_ne] at hu
    cases b <;> simp only [Entity.Means] at hm <;>
      simp only [Entity.valueType?, hm, Option.some.injEq, reduceCtorEq] at htype <;> subst htype
    · exact .var hb (hm.2.2.1 hu)
    · exact .const hb
    · exact .param hb
  · intro hr
    cases hr with
    | const hf =>
      obtain ⟨e, he, hk, hs⟩ := h.of_find hf
      exact ⟨e, he, by simp [Entity.valueType?, hk], by simp [Entity.isUntouched, hs]⟩
    | param hf =>
      obtain ⟨e, he, hk, -, hs⟩ := h.of_find hf
      exact ⟨e, he, by simp [Entity.valueType?, hk], by simpa [Entity.isUntouched] using hs⟩
    | var hf ha =>
      obtain ⟨e, he, hk, -, hs⟩ := h.of_find hf
      exact ⟨e, he, by simp [Entity.valueType?, hk], by simpa [Entity.isUntouched] using hs.2 ha⟩

/-- A name may be assigned if it is an entity of that type and no constant. -/
theorem writable_iff (h : t.Shows v) {type : Ty} :
    (∃ e, t.lookup? x = some e ∧ e.valueType? = some type ∧ e.isConstant = false) ↔
      v.Writable x type := by
  constructor
  · rintro ⟨e, he, htype, hc⟩
    obtain ⟨place, b, hb, hm⟩ := h.lookup_some he
    simp only [Entity.isConstant, beq_eq_false_iff_ne] at hc
    cases b <;> simp only [Entity.Means] at hm <;>
      simp only [Entity.valueType?, hm, Option.some.injEq, reduceCtorEq] at htype <;> subst htype
    · exact .var hb
    · exact absurd hm.2 hc
    · exact .param hb
  · intro hw
    cases hw with
    | param hf =>
      obtain ⟨e, he, hk, hs, -⟩ := h.of_find hf
      exact ⟨e, he, by simp [Entity.valueType?, hk], by simpa [Entity.isConstant] using hs⟩
    | var hf =>
      obtain ⟨e, he, hk, hs, -⟩ := h.of_find hf
      exact ⟨e, he, by simp [Entity.valueType?, hk], by simpa [Entity.isConstant] using hs⟩

/-- A call of a declared function finds it among the globals. -/
theorem function_iff (h : t.Shows v) {result : Ty} {params : List Ty} :
    (t.lookupGlobal? x).map Entity.kind = some (.function result params) ↔
      v.globals.lookup x = some (.func result params) := by
  constructor
  · intro hk
    obtain ⟨e, he, hk⟩ := Option.map_eq_some_iff.1 hk
    obtain ⟨b, hb, hm⟩ := h.globals.lookup_some he
    cases b with
    | func r ps =>
      cases hm.symm.trans hk
      exact hb
    | var _ | param _ | const _ => exact absurd (hm.1.symm.trans hk) (by simp)
  · intro hb
    obtain ⟨e, he, hm⟩ := h.globals.of_some hb
    exact Option.map_eq_some_iff.2 ⟨e, he, hm⟩

end SymbolTable.Shows

end ThreeAddress
