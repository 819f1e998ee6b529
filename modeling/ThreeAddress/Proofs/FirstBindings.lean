import ThreeAddress.Proofs.TableSteps

/-!
# First bindings

A scope holds, of each name, the entity that was bound first.  What is bound in a scope can be read off the tree: the
declarations and functions of a program, the parameters and declarations of a body.

* `inTurn` — what each item of a list gives rise to, behind those in front of it;
* `Decl.entity`, `Param.entity`, `Func.entity`, `Body.entities`, `Program.entities` — what a tree binds, in order;
* `firsts`, `Scope.of` — of each name the first entity, and a scope of them;
* `firsts_concat`, `Scope.lookup_of` — one entity more, and what a name means.
-/

namespace ThreeAddress

/-! ### Items in turn -/

section Turns

variable {α β : Type} {f : List α → α → List β} {before as : List α}

/-- What each item gives rise to behind those in front of it, in order. -/
def inTurn (f : List α → α → List β) (before : List α) : List α → List β
  | [] => []
  | a :: more => f before a ++ inTurn f (before ++ [a]) more

theorem inTurn_filter (q : β → Bool) :
    (inTurn f before as).filter q = inTurn (fun b a => (f b a).filter q) before as := by
  induction as generalizing before with
  | nil => rfl
  | cons a more ih => rw [inTurn, inTurn, List.filter_append, ih]

end Turns

/-! ### What a tree binds -/

/-- What a declaration binds. -/
def Decl.entity : Decl → Entity
  | .var name type span => .unassigned name type span
  | .const name type _ span => .constant name type span

/-- What a parameter binds. -/
def Param.entity (p : Param) : Entity := .parameter p.name p.type p.span

/-- What a function binds. -/
def Func.entity (f : Func) : Entity := .function f.name f.returnType (f.params.map (·.type)) f.span

/-- What a body binds in its scope: its parameters, then its declarations. -/
def Body.entities (b : Body) : List Entity := b.params.map Param.entity ++ b.decls.map Decl.entity

/-- What a program binds globally down to some functions: its declarations, then these. -/
def Program.entitiesWith (p : Program) (fs : List Func) : List Entity :=
  p.decls.map Decl.entity ++ fs.map Func.entity

/-- What a program binds globally. -/
def Program.entities (p : Program) : List Entity := p.entitiesWith p.funcs

@[simp] theorem Decl.entity_name (d : Decl) : d.entity.name = d.name := by cases d <;> rfl

@[simp] theorem Decl.entity_isFunction (d : Decl) : d.entity.isFunction = false := by cases d <;> rfl

@[simp] theorem Param.entity_name (p : Param) : p.entity.name = p.name := rfl

@[simp] theorem Func.entity_name (f : Func) : f.entity.name = f.name := rfl

@[simp] theorem Func.entity_isFunction (f : Func) : f.entity.isFunction = true := rfl

theorem Body.names_entities (b : Body) : b.entities.map (·.name) = b.scope := by
  simp [entities, scope, Function.comp_def]

/-- No function is bound in a body. -/
theorem Body.entities_isFunction (b : Body) : ∀ e ∈ b.entities, e.isFunction = false := by
  intro e he
  rcases List.mem_append.1 he with he | he
  · obtain ⟨p, -, rfl⟩ := List.mem_map.1 he
    rfl
  · obtain ⟨d, -, rfl⟩ := List.mem_map.1 he
    exact d.entity_isFunction

/-! ### Scopes of first bindings -/

/-- Of each name the first entity. -/
def firsts : List Entity → List Entity
  | [] => []
  | e :: more => e :: (firsts more).filter (·.name ≠ e.name)

/-- The scope that holds of each name the first of some entities. -/
def Scope.of (es : List Entity) : Scope := ⟨firsts es⟩

section Firsts

variable {es : List Entity} {e : Entity} {x : String}

theorem firsts_sublist (es : List Entity) : (firsts es).Sublist es := by
  induction es with
  | nil => exact .slnil
  | cons a more ih => exact (List.filter_sublist.trans ih).cons_cons a

theorem mem_of_mem_firsts (h : e ∈ firsts es) : e ∈ es := (firsts_sublist es).subset h

theorem mem_names_firsts : x ∈ (firsts es).map (·.name) ↔ x ∈ es.map (·.name) := by
  induction es with
  | nil => rfl
  | cons a more ih =>
    rw [firsts, List.map_cons, List.map_cons, List.mem_cons, List.mem_cons, ← ih]
    refine or_congr_right' fun hx => ?_
    simp only [List.mem_map, List.mem_filter]
    constructor
    · rintro ⟨e, ⟨he, -⟩, rfl⟩
      exact ⟨e, he, rfl⟩
    · rintro ⟨e, he, rfl⟩
      exact ⟨e, ⟨he, by simpa using hx⟩, rfl⟩

theorem nodup_firsts (es : List Entity) : ((firsts es).map (·.name)).Nodup := by
  induction es with
  | nil => exact List.nodup_nil
  | cons a more ih =>
    rw [firsts, List.map_cons, List.nodup_cons]
    refine ⟨fun h => ?_, (List.filter_sublist.map _).nodup ih⟩
    obtain ⟨e, he, hname⟩ := List.mem_map.1 h
    exact absurd hname (by simpa using (List.mem_filter.1 he).2)

/-- The first entity of a name is the first one in the whole list. -/
theorem find?_firsts (es : List Entity) (x : String) :
    (firsts es).find? (·.name == x) = es.find? (·.name == x) := by
  induction es with
  | nil => rfl
  | cons a more ih =>
    rw [firsts, List.find?_cons, List.find?_cons]
    split
    · rfl
    · rename_i ha
      rw [List.find?_filter, ← ih]
      refine congrArg (List.find? · _) (funext fun e => ?_)
      by_cases he : e.name = x
      · simp [he, ne_comm.1 (by simpa using ha)]
      · simp [he]

/-- The first entities are those that their names mean. -/
theorem mem_firsts_iff : e ∈ firsts es ↔ es.find? (·.name == e.name) = some e := by
  rw [← find?_firsts]
  refine ⟨fun h => ?_, List.mem_of_find?_eq_some⟩
  cases hfound : (firsts es).find? (·.name == e.name) with
  | none => simpa using List.find?_eq_none.1 hfound e h
  | some first =>
    have hname : first.name = e.name := by simpa using List.find?_some hfound
    rw [List.inj_on_of_nodup_map (nodup_firsts es) (List.mem_of_find?_eq_some hfound) h hname]

/-- One entity more is kept if its name is new. -/
theorem firsts_concat (es : List Entity) (e : Entity) :
    firsts (es ++ [e]) = firsts es ++ if e.name ∈ es.map (·.name) then [] else [e] := by
  induction es with
  | nil => rfl
  | cons a more ih =>
    rw [List.cons_append, firsts, firsts, ih, List.filter_append, List.map_cons, List.cons_append]
    by_cases hmore : e.name ∈ more.map (·.name)
    · rw [if_pos hmore, if_pos (List.mem_cons_of_mem _ hmore)]
      rfl
    · rw [if_neg hmore]
      by_cases ha : e.name = a.name
      · simp [ha]
      · have hnew : e.name ∉ a.name :: more.map (·.name) := by
          rw [List.mem_cons, not_or]
          exact ⟨ha, hmore⟩
        rw [if_neg hnew, List.filter_cons_of_pos (by simpa using ha), List.filter_nil]

/-- What a name means in a scope is its first binding. -/
theorem Scope.lookup_of (es : List Entity) (x : String) : (Scope.of es).lookup? x = es.find? (·.name == x) :=
  find?_firsts es x

/-- Only the names count. -/
theorem firsts_map {h : Entity → Entity} (hname : ∀ e, (h e).name = e.name) (es : List Entity) :
    firsts (es.map h) = (firsts es).map h := by
  induction es with
  | nil => rfl
  | cons a more ih =>
    rw [List.map_cons, firsts, firsts, List.map_cons, ih, List.filter_map]
    simp only [Function.comp_def, hname]

end Firsts

end ThreeAddress
