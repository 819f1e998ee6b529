import ThreeAddress.Proofs.ScopesInTurn

/-!
# Neglected entities

A program is warned of the variables that nothing sets or copies and of the functions that nothing calls.  Which ones
these are is a matter of what names mean: an assignment touches the entity that its target means and the one that it
copies, in its body first and else globally, and a call touches the function of its name.

* `Body.TouchesOwn`, `Body.TouchesGlobal`, `Body.CallsName` — what a body touches;
* `Body.Neglects`, `Program.Neglects` — the entities that deserve a warning;
* `Program.analyze_warnings` — the warnings are these, each once, scope by scope in the order of the definitions.
-/

namespace ThreeAddress

/-! ### What a body touches -/

namespace Body

/-- An assignment sets or copies a name that means an entity of the body. -/
def TouchesOwn (b : Body) (e : Entity) : Prop := ∃ x ∈ b.touched, b.entities.find? (·.name == x) = some e

/-- An assignment sets or copies a name that means nothing in the body, and an entity among the global ones. -/
def TouchesGlobal (b : Body) (globals : List Entity) (e : Entity) : Prop :=
  ∃ x ∈ b.touched, b.entities.find? (·.name == x) = none ∧ globals.find? (·.name == x) = some e

/-- A call names a function, whatever its arguments. -/
def CallsName (b : Body) (x : String) : Prop := ∃ c ∈ b.calls, c.name = x

variable {b : Body} {e : Entity} {globals : List Entity}

theorem touchesOwn_iff (he : b.entities.find? (·.name == e.name) = some e) :
    b.TouchesOwn e ↔ e.name ∈ b.touched := by
  constructor
  · rintro ⟨x, hx, hfound⟩
    have hname : e.name = x := by simpa using List.find?_some hfound
    exact hname ▸ hx
  · exact fun h => ⟨e.name, h, he⟩

/-- A name that is not bound in a body means nothing there. -/
theorem find?_eq_none_iff {x : String} : b.entities.find? (·.name == x) = none ↔ x ∉ b.scope := by
  rw [← b.names_entities, List.find?_eq_none]
  simp

theorem marks_of_value (hf : e.isFunction = false) (he : globals.find? (·.name == e.name) = some e) :
    b.marks e = true ↔ b.TouchesGlobal globals e := by
  have hmarks : b.marks e = true ↔ e.name ∈ b.touched ∧ e.name ∉ b.scope := by
    simp [marks, Entity.isAmong, hf, touchedOutside]
  rw [hmarks]
  constructor
  · rintro ⟨hx, hout⟩
    exact ⟨e.name, hx, find?_eq_none_iff.2 hout, he⟩
  · rintro ⟨x, hx, hout, hfound⟩
    have hname : e.name = x := by simpa using List.find?_some hfound
    exact hname ▸ ⟨hx, find?_eq_none_iff.1 hout⟩

theorem marks_of_function (hf : e.isFunction = true) : b.marks e = true ↔ b.CallsName e.name := by
  simp [marks, Entity.isAmong, hf, callees, CallsName]

end Body

/-! ### What deserves a warning -/

/-- A variable of a body that none of its assignments sets or copies. -/
structure Body.Neglects (b : Body) (e : Entity) : Prop where
  var : Role.var.Binds e
  first : b.entities.find? (·.name == e.name) = some e
  untouched : ¬b.TouchesOwn e

/-- A global variable that no assignment sets or copies, or a function that is not called in the body of the first
function of its name, in those behind it or in the main part. -/
inductive Program.Neglects (p : Program) (e : Entity) : Prop
  | var (hr : Role.var.Binds e) (hfirst : p.entities.find? (·.name == e.name) = some e)
      (h : ∀ b ∈ p.bodies, ¬b.TouchesGlobal p.entities e)
  | func (hr : Role.func.Binds e) (hfirst : p.entities.find? (·.name == e.name) = some e)
      (h : ∀ b ∈ (p.funcs.dropWhile (·.name ≠ e.name)).map Func.asBody ++ [p.mainBody], ¬b.CallsName e.name)

/-- Of what a body binds, only variables are just declared. -/
theorem Body.binds_var {b : Body} {e : Entity} (he : e ∈ b.entities) (hu : e.isUntouched = true) :
    Role.var.Binds e := by
  rcases List.mem_append.1 he with he | he
  · obtain ⟨p, -, rfl⟩ := List.mem_map.1 he
    cases hu
  · obtain ⟨d, -, rfl⟩ := List.mem_map.1 he
    cases d with
    | var name type span => exact .var
    | const name type value span => cases hu

/-- Of what a program binds globally, only variables and functions are just declared. -/
theorem Program.binds_var_or_func {p : Program} {e : Entity} (he : e ∈ p.entities) (hu : e.isUntouched = true) :
    Role.var.Binds e ∨ Role.func.Binds e := by
  rcases List.mem_append.1 he with he | he
  · obtain ⟨d, -, rfl⟩ := List.mem_map.1 he
    cases d with
    | var name type span => exact .inl .var
    | const name type value span => cases hu
  · obtain ⟨f, -, rfl⟩ := List.mem_map.1 he
    exact .inr .func

theorem Body.mem_neglected_iff {b : Body} {e : Entity} : e ∈ b.neglected ↔ b.Neglects e := by
  rw [neglected, List.mem_filter, mem_firsts_iff, Bool.and_eq_true, Bool.not_eq_true', ← Bool.not_eq_true,
    List.contains_iff_mem]
  constructor
  · rintro ⟨hfirst, hu, ht⟩
    exact ⟨binds_var (List.mem_of_find?_eq_some hfirst) hu, hfirst, fun h => ht ((touchesOwn_iff hfirst).1 h)⟩
  · rintro ⟨hr, hfirst, ht⟩
    refine ⟨hfirst, ?_, fun h => ht ((touchesOwn_iff hfirst).2 h)⟩
    cases hr
    rfl

theorem Program.mem_neglected_iff {p : Program} {e : Entity} : e ∈ p.neglected ↔ p.Neglects e := by
  have hmem : e ∈ p.neglected ↔ p.entities.find? (·.name == e.name) = some e ∧ e.isUntouched = true ∧
      ∀ b ∈ (e.users p.funcs).map Func.asBody ++ [p.mainBody], ¬b.marks e = true := by
    rw [neglected, List.mem_filter, mem_firsts_iff, Bool.and_eq_true, Bool.not_eq_true', List.any_eq_false]
  rw [hmem]
  constructor
  · rintro ⟨hfirst, hu, hmarks⟩
    rcases binds_var_or_func (List.mem_of_find?_eq_some hfirst) hu with hr | hr
    · have hf : e.isFunction = false := by cases hr; rfl
      refine .var hr hfirst fun b hb ht => ?_
      rw [Entity.users, if_neg (by simp [hf])] at hmarks
      exact hmarks b hb ((Body.marks_of_value hf hfirst).2 ht)
    · have hf : e.isFunction = true := hr.has.function.2 rfl
      refine .func hr hfirst fun b hb hc => ?_
      rw [Entity.users, if_pos hf] at hmarks
      exact hmarks b hb ((Body.marks_of_function hf).2 hc)
  · rintro (⟨hr, hfirst, h⟩ | ⟨hr, hfirst, h⟩)
    · have hf : e.isFunction = false := by cases hr; rfl
      refine ⟨hfirst, by cases hr; rfl, fun b hb hm => ?_⟩
      rw [Entity.users, if_neg (by simp [hf])] at hb
      exact h b hb ((Body.marks_of_value hf hfirst).1 hm)
    · have hf : e.isFunction = true := hr.has.function.2 rfl
      refine ⟨hfirst, by cases hr; rfl, fun b hb hm => ?_⟩
      rw [Entity.users, if_pos hf] at hb
      exact h b hb ((Body.marks_of_function hf).1 hm)

/-! ### Warnings -/

/-- Some of the first entities stand in the order of the definitions, and no name among them twice. -/
theorem sublist_nodup_of_firsts (keep : Entity → Bool) (es : List Entity) :
    ((firsts es).filter keep).Sublist es ∧ (((firsts es).filter keep).map Entity.name).Nodup :=
  ⟨List.filter_sublist.trans (firsts_sublist es), (List.filter_sublist.map _).nodup (nodup_firsts es)⟩

/-- A warning points to the definition, and tells a variable from a function. -/
theorem Entity.warning_code (e : Entity) :
    e.warning.span = e.span ∧ e.warning.code = if e.isFunction then .neverUsed else .neverAssigned := by
  unfold warning
  split <;> exact ⟨rfl, rfl⟩

namespace Program

/-- **Warnings.**  Whatever else is wrong with a program, it is warned of what its bodies neglect, one body after
another and the main part at last, and then of what is neglected globally.  In each scope these are the entities that
deserve it, in the order of their definitions, and no name among them twice. -/
theorem analyze_warnings (p : Program) :
    p.analyze.warnings = (p.bodies.flatMap Body.neglected ++ p.neglected).map Entity.warning ∧
      (∀ e : Entity, e.warning.span = e.span ∧
        e.warning.code = if e.isFunction then .neverUsed else .neverAssigned) ∧
      (∀ b ∈ p.bodies, b.neglected.Sublist b.entities ∧ (b.neglected.map Entity.name).Nodup ∧
        ∀ e, e ∈ b.neglected ↔ b.Neglects e) ∧
      p.neglected.Sublist p.entities ∧ (p.neglected.map Entity.name).Nodup ∧
        ∀ e, e ∈ p.neglected ↔ p.Neglects e := by
  obtain ⟨horder, honce⟩ := sublist_nodup_of_firsts _ p.entities
  refine ⟨congrArg Findings.warnings p.analyze_eq, Entity.warning_code, fun b _ => ?_, horder, honce,
    fun _ => mem_neglected_iff⟩
  obtain ⟨horder, honce⟩ := sublist_nodup_of_firsts _ b.entities
  exact ⟨horder, honce, fun _ => Body.mem_neglected_iff⟩

-- The local x is set in place of the global one, and the call of g comes before g is known.
example : (Program.ofSource ("var x: integer; var y: integer; "
    ++ "void f(p: integer) \x7b var x: integer; var z: integer; x = p; g(); return (); \x7d "
    ++ "void g() \x7b return (); \x7d main \x7b var x: integer; y = x; f(); \x7d")).toOption.map
      (fun p => (p.bodies.map fun b => b.neglected.map Entity.name, p.neglected.map Entity.name)) =
    some ([["z"], [], []], ["x", "g"]) := by decide +kernel

end Program

end ThreeAddress
