import ThreeAddress.Proofs.Lifecycles
import ThreeAddress.Proofs.ScopesInTurn

/-!
# Tables in turn

From the first table of an analysis to the last one, each scope holds the first bindings of what was bound in it so
far.  Whatever happens to an entity, its name, its kind and its place stay.

* `Entity.bare`, `SymbolTable.bindings` — entities and tables, whatever has become of the entities;
* `SymbolTable.bindings_of_trail` — along changes that bind one entity at most, a table holds what the first one or
  the last one holds;
* `SymbolTable.StandsWithin` — a table in a body, whatever has become of its entities;
* `Program.Holds`, `Program.tables_hold` — the tables that an analyser comes through.
-/

namespace ThreeAddress

variable {α β : Type}

/-! ### What a table holds -/

/-- An entity, whatever has become of it. -/
def Entity.bare (e : Entity) : Entity := e.withState .declared

@[simp] theorem Entity.bare_name (e : Entity) : e.bare.name = e.name := rfl

@[simp] theorem Entity.bare_plain (e : Entity) : e.plain.bare = e.bare := by
  unfold plain
  split <;> rfl

@[simp] theorem Entity.bare_note (touched called : List String) (e : Entity) :
    (e.note touched called).bare = e.bare := by
  unfold note
  split <;> rfl

@[simp] theorem Entity.bare_settled (done : List Func) (e : Entity) : (e.settled done).bare = e.bare := by
  unfold settled
  split <;> rfl

namespace SymbolTable

variable {t t' : SymbolTable} {ts : List SymbolTable} {gs gs' es : List Entity}

/-- What the scopes of a table hold, the global one first, whatever has become of it. -/
def bindings (t : SymbolTable) : List (List Entity) := t.scopes.map fun s => s.entities.map Entity.bare

/-- How many entities a table holds. -/
def size (t : SymbolTable) : Nat := t.bindings.flatten.length

theorem bindings_plain (t : SymbolTable) : t.plain.bindings = t.bindings := by
  simp [bindings, scopes, plain, Scope.plain, Function.comp_def]

theorem bindings_of_plain (h : t.plain = t'.plain) : t.bindings = t'.bindings := by
  rw [← bindings_plain, h, bindings_plain]

theorem size_of_bindings (h : t.bindings = t'.bindings) : t.size = t'.size := by rw [size, h, size]

/-- What has become of the entities does not count. -/
theorem bare_firsts_congr (h : gs.map Entity.bare = gs'.map Entity.bare) :
    (firsts gs).map Entity.bare = (firsts gs').map Entity.bare := by
  rw [← firsts_map Entity.bare_name, h, firsts_map Entity.bare_name]

theorem bindings_outside_congr (h : gs.map Entity.bare = gs'.map Entity.bare) :
    (outside gs).bindings = (outside gs').bindings := by
  simp [bindings, scopes, outside, Scope.of, bare_firsts_congr h]

theorem bindings_within_congr {es' : List Entity} (h : gs.map Entity.bare = gs'.map Entity.bare)
    (he : es.map Entity.bare = es'.map Entity.bare) : (within gs es).bindings = (within gs' es').bindings := by
  simp [bindings, scopes, within, Scope.of, bare_firsts_congr h, bare_firsts_congr he]

theorem length_firsts_concat (es : List Entity) (e : Entity) :
    (firsts (es ++ [e])).length ≤ (firsts es).length + 1 := by
  rw [firsts_concat, List.length_append]
  split <;> simp

theorem size_outside_concat (gs : List Entity) (e : Entity) : (outside (gs ++ [e])).size ≤ (outside gs).size + 1 := by
  simpa [size, bindings, scopes, outside, Scope.of] using length_firsts_concat gs e

theorem size_within_concat (gs es : List Entity) (e : Entity) :
    (within gs (es ++ [e])).size ≤ (within gs es).size + 1 := by
  have h := length_firsts_concat es e
  simp only [size, bindings, scopes, within, Scope.of, List.reverse_singleton, List.map_cons, List.map_nil,
    List.flatten_cons, List.flatten_nil, List.length_append, List.length_map]
  omega

/-! ### Along a trail -/

/-- A change of a scope keeps what a table holds, or binds one entity. -/
theorem Edit.bindings (h : t.Edit t') : t'.bindings = t.bindings ∨ t'.size = t.size + 1 := by
  obtain ⟨lower, s, s', upper, hs, hs', hedit⟩ := h
  cases hedit with
  | bind hr hl hd =>
    right
    simp only [size, SymbolTable.bindings, hs, hs', Scope.define_entities hd, List.map_append, List.map_cons,
      List.flatten_append, List.flatten_cons, List.length_append, List.length_map, List.length_cons, List.map_nil,
      List.length_nil]
    omega
  | @mark x e state hx hm =>
    left
    have hstate : (s.setState x state).entities.map Entity.bare = s.entities.map Entity.bare := by
      rw [Scope.setState, List.map_map]
      refine List.map_congr_left fun e _ => ?_
      rw [Function.comp_apply]
      split <;> rfl
    simp only [SymbolTable.bindings, hs, hs', List.map_append, List.map_cons, hstate]

theorem Edit.size_le (h : t.Edit t') : t.size ≤ t'.size := by
  rcases h.bindings with h | h
  · exact (size_of_bindings h).ge
  · omega

theorem size_le_of_trail (h : Trail Edit t ts t') : t.size ≤ t'.size := by
  induction h with
  | nil => exact Nat.le_refl _
  | cons hstep _ ih => exact hstep.size_le.trans ih

/-- If nothing more is held at the end, nothing was bound. -/
theorem bindings_eq_of_trail (h : Trail Edit t ts t') (hsize : t'.size ≤ t.size) :
    ∀ u ∈ t :: ts, u.bindings = t'.bindings := by
  induction h with
  | nil => exact List.forall_mem_singleton.2 rfl
  | cons hstep hmore ih =>
    have hlast := ih (hsize.trans hstep.size_le)
    refine List.forall_mem_cons.2 ⟨?_, hlast⟩
    rcases hstep.bindings with h | h
    · rw [← h]
      exact hlast _ List.mem_cons_self
    · have hle := size_le_of_trail hmore
      omega

/-- If one entity more is held at most, then each table holds what the first one or the last one holds. -/
theorem bindings_of_trail (h : Trail Edit t ts t') (hsize : t'.size ≤ t.size + 1) :
    ∀ u ∈ ts, u.bindings = t.bindings ∨ u.bindings = t'.bindings := by
  induction h with
  | nil => exact fun _ hu => absurd hu List.not_mem_nil
  | @cons t₁ t₂ t₃ more hstep hmore ih =>
    rcases hstep.bindings with h | h
    · rw [size_of_bindings h, h] at ih
      exact List.forall_mem_cons.2 ⟨.inl h, ih hsize⟩
    · exact fun u hu => .inr (bindings_eq_of_trail hmore (by omega) u hu)

/-- A table in a body, whatever has become of the global entities. -/
def StandsWithin (t : SymbolTable) (gs es : List Entity) : Prop :=
  ∃ gs' : List Entity, gs'.map Entity.bare = gs.map Entity.bare ∧ t.plain = (within gs' es).plain

theorem StandsWithin.bindings (h : t.StandsWithin gs es) : t.bindings = (within gs es).bindings := by
  obtain ⟨gs', hgs, ht⟩ := h
  rw [bindings_of_plain ht]
  exact bindings_within_congr hgs rfl

end SymbolTable

/-! ### What names mean -/

theorem Scope.lookup_bare (s : Scope) (x : String) :
    (s.lookup? x).map Entity.bare = (s.entities.map Entity.bare).find? (·.name == x) := by
  rw [lookup?, List.find?_map]
  rfl

/-- Apart from what has become of an entity, a name means the first binding of some global and some local ones. -/
structure SymbolTable.MeansFirsts (t : SymbolTable) (gs es : List Entity) : Prop where
  lookup : ∀ x, (t.lookup? x).map Entity.bare =
    ((es.find? (·.name == x)).or (gs.find? (·.name == x))).map Entity.bare
  lookupGlobal : ∀ x, (t.lookupGlobal? x).map Entity.bare = (gs.find? (·.name == x)).map Entity.bare

/-- A scope that holds first bindings. -/
theorem Scope.lookup_of_bare {s : Scope} {es : List Entity}
    (h : s.entities.map Entity.bare = (firsts es).map Entity.bare) (x : String) :
    (s.lookup? x).map Entity.bare = (es.find? (·.name == x)).map Entity.bare := by
  rw [s.lookup_bare, h, List.find?_map, ← find?_firsts es]
  rfl

theorem SymbolTable.means_outside {t : SymbolTable} {gs : List Entity} (h : t.bindings = (outside gs).bindings) :
    t.MeansFirsts gs [] := by
  obtain ⟨inner, globals⟩ := t
  simp only [bindings, scopes, outside, Scope.of, List.map_cons, List.reverse_nil, List.map_nil, List.cons.injEq,
    List.map_eq_nil_iff, List.reverse_eq_nil_iff] at h
  obtain ⟨hglobals, rfl⟩ := h
  have hmeans := Scope.lookup_of_bare hglobals
  exact ⟨fun x => by simpa [lookup?] using hmeans x, hmeans⟩

theorem SymbolTable.means_within {t : SymbolTable} {gs es : List Entity} (h : t.bindings = (within gs es).bindings) :
    t.MeansFirsts gs es := by
  obtain ⟨inner, globals⟩ := t
  simp only [bindings, scopes, within, Scope.of, List.map_cons, List.reverse_singleton, List.map_nil, List.cons.injEq,
    List.map_eq_singleton_iff] at h
  obtain ⟨hglobals, s, hinner, hlocals⟩ := h
  obtain rfl : inner = [s] := List.reverse_injective (hinner.trans List.reverse_singleton.symm)
  have hmeans := Scope.lookup_of_bare hglobals
  refine ⟨fun x => ?_, hmeans⟩
  have hlocal := Scope.lookup_of_bare hlocals x
  rw [lookup?, List.findSome?_singleton]
  cases hs : s.lookup? x with
  | some e =>
    obtain ⟨first, hfirst, hbare⟩ := Option.map_eq_some_iff.1 (hlocal.symm.trans (congrArg _ hs))
    rw [hfirst, Option.some_or]
    exact congrArg some hbare.symm
  | none =>
    rw [hs, Option.map_none] at hlocal
    rw [Option.map_eq_none_iff.1 hlocal.symm, Option.none_or]
    exact hmeans x

/-! ### Walks that bind -/

open SymbolTable (outside within)
open Walk (Edits Follows)

theorem Walk.Follows.symbols_eq {w : Walk α} {p : Check α} (h : Follows w p) (a : Analyzer) :
    (w.run a).state.symbols = (p.run a.symbols).state := by rw [(h a).2]

/-- A walk over items each of which binds one entity at most. -/
theorem Walk.bindings_forM {step : β → Walk Unit} {p : β → Check Unit} {I : List β → SymbolTable → Prop}
    {shape : List β → SymbolTable} (hfollows : ∀ b, Follows (step b) (p b)) (hedits : ∀ b, (step b).Edits)
    (hI : ∀ before b t, I before t → I (before ++ [b]) ((p b).run t).state)
    (hshape : ∀ before t, I before t → t.bindings = (shape before).bindings)
    (hgrow : ∀ before b, (shape (before ++ [b])).size ≤ (shape before).size + 1)
    (before bs : List β) {a : Analyzer} (ha : I before a.symbols) :
    ∀ t ∈ ((bs.forM step).run a).record, ∃ front, front <+: bs ∧ t.bindings = (shape (before ++ front)).bindings := by
  induction bs generalizing before a with
  | nil => exact fun _ ht => absurd ht List.not_mem_nil
  | cons b more ih =>
    have hnext := hI before b _ ha
    rw [← (hfollows b).symbols_eq] at hnext
    have hfirst := SymbolTable.bindings_of_trail (hedits b _ a rfl) (by
      rw [SymbolTable.size_of_bindings (hshape _ _ hnext), SymbolTable.size_of_bindings (hshape _ _ ha)]
      exact hgrow before b)
    have hcons : (b :: more).forM step = (step b >>= fun _ => more.forM step) := rfl
    rw [hcons, Pass.run_bind]
    refine List.forall_mem_append.2 ⟨fun t ht => ?_, fun t ht => ?_⟩
    · rcases hfirst t ht with h | h
      · exact ⟨[], List.nil_prefix, by rw [h, hshape _ _ ha, List.append_nil]⟩
      · exact ⟨[b], by simp, by rw [h, hshape _ _ hnext]⟩
    · obtain ⟨front, hfront, h⟩ := ih (before ++ [b]) hnext t ht
      refine ⟨b :: front, by simpa using hfront, ?_⟩
      rw [h, List.append_assoc, List.singleton_append]

section Locals

variable {gs es : List Entity} {a : Analyzer}

/-- The tables that the parameters of a function lead through. -/
theorem Param.walkAll_bindings (function : String) (params : List Param) (ha : a.symbols.StandsWithin gs []) :
    (((params.forM (Param.walk function)).run a).state.symbols.StandsWithin gs (params.map Param.entity)) ∧
      ∀ t ∈ ((params.forM (Param.walk function)).run a).record, ∃ front, front <+: params ∧
        t.bindings = (within gs (front.map Param.entity)).bindings := by
  refine ⟨?_, Walk.bindings_forM
    (I := fun before t => t.StandsWithin gs (before.map Param.entity)) (fun p => p.walk_follows function)
    (Param.walk_edits function) (fun before p t ht => ?_) (fun _ _ => SymbolTable.StandsWithin.bindings)
    (fun before p => ?_) [] params ha⟩
  · obtain ⟨gs', hgs, ha⟩ := ha
    rw [(Follows.forM (Param.walk_follows function) params).symbols_eq]
    exact ⟨gs', hgs, (Param.checkAll_within function ha params).1⟩
  · obtain ⟨gs', hgs, ht⟩ := ht
    rw [List.map_append]
    exact ⟨gs', hgs, p.check_within function ht⟩
  · rw [List.map_append]
    exact SymbolTable.size_within_concat _ _ _

/-- The tables that the declarations of a body lead through. -/
theorem Decl.walkAll_bindings (ds : List Decl) (ha : a.symbols.StandsWithin gs es) :
    (((ds.forM Decl.walk).run a).state.symbols.StandsWithin gs (es ++ ds.map Decl.entity)) ∧
      ∀ t ∈ ((ds.forM Decl.walk).run a).record, ∃ front, front <+: ds ∧
        t.bindings = (within gs (es ++ front.map Decl.entity)).bindings := by
  refine ⟨?_, Walk.bindings_forM
    (I := fun before t => t.StandsWithin gs (es ++ before.map Decl.entity)) Decl.walk_follows Decl.walk_edits
    (fun before d t ht => ?_) (fun _ _ => SymbolTable.StandsWithin.bindings) (fun before d => ?_) [] ds
    (by simpa using ha)⟩
  · obtain ⟨gs', hgs, ha⟩ := ha
    rw [(Follows.forM Decl.walk_follows ds).symbols_eq]
    exact ⟨_, by simpa [Function.comp_def] using hgs, (Decl.checkAll_within ha ds).1⟩
  · obtain ⟨gs', hgs, ht⟩ := ht
    rw [List.map_append, ← List.append_assoc]
    exact ⟨_, by simpa [Function.comp_def] using hgs, d.check_within ht⟩
  · rw [List.map_append, ← List.append_assoc]
    exact SymbolTable.size_within_concat _ _ _

end Locals

/-! ### Bodies -/

/-- The walk through a body, that through its return at last. -/
def Body.walk (function : String) (b : Body) (last : Walk Unit) : Walk Unit := do
  b.params.forM (Param.walk function)
  b.decls.forM Decl.walk
  Block.walk b.block
  last

namespace Body

variable (b : Body) (function : String) {last : Walk Unit} {check : Check Unit} {gs : List Entity} {a : Analyzer}

theorem walk_follows (hlast : Follows last check) : Follows (b.walk function last) (b.check function check) :=
  (Follows.forM (Param.walk_follows function) _).bind fun _ =>
    (Follows.forM Decl.walk_follows _).bind fun _ => (Block.walk_follows _).bind fun _ => hlast

theorem walk_edits (hlast : last.Edits) : (b.walk function last).Edits :=
  (Edits.forM (Param.walk_edits function) _).bind fun _ =>
    (Edits.forM Decl.walk_edits _).bind fun _ => (Block.walk_edits _).bind fun _ => hlast

/-- Statements bind nothing, nor does a return. -/
theorem walkRest_bindings {es : List Entity} (hfollows : Follows last check) (hedits : last.Edits)
    {called : List String} (hnotes : check.Notes [] called) (ha : a.symbols.StandsWithin gs es) :
    ∀ t ∈ ((Block.walk b.block >>= fun _ => last).run a).record, t.bindings = (within gs es).bindings := by
  obtain ⟨gs', hgs, hstart⟩ := id ha
  have hend := ((Block.check_notes b.block).bind fun _ => hnotes) _ ((SymbolTable.tidy_within gs' es).of_plain hstart)
  rw [← ((Block.walk_follows b.block).bind fun _ => hfollows).symbols_eq, SymbolTable.plain_note, hstart,
    ← SymbolTable.plain_note, SymbolTable.note_within] at hend
  have hlast : ((Block.walk b.block >>= fun _ => last).run a).state.symbols.bindings = (within gs es).bindings := by
    rw [SymbolTable.bindings_of_plain hend]
    exact SymbolTable.bindings_within_congr (by simpa [Function.comp_def] using hgs) (by simp [Function.comp_def])
  have htrail := ((Block.walk_edits b.block).bind fun _ => hedits) _ a rfl
  have hsize := SymbolTable.size_of_bindings (hlast.trans ha.bindings.symm)
  exact fun t ht => (SymbolTable.bindings_eq_of_trail htrail hsize.le t (List.mem_cons_of_mem _ ht)).trans hlast

/-- In the scope of a body stand its first bindings so far. -/
theorem walk_bindings (hfollows : Follows last check) (hedits : last.Edits) {called : List String}
    (hnotes : check.Notes [] called) (ha : a.symbols.StandsWithin gs []) :
    ∀ t ∈ ((b.walk function last).run a).record, ∃ es, es <+: b.entities ∧ t.bindings = (within gs es).bindings := by
  obtain ⟨hparams, hinParams⟩ := Param.walkAll_bindings function b.params ha
  obtain ⟨hdecls, hinDecls⟩ := Decl.walkAll_bindings b.decls hparams
  have hinRest := b.walkRest_bindings hfollows hedits hnotes hdecls
  rw [walk, Pass.run_bind, Pass.run_bind]
  refine List.forall_mem_append.2 ⟨fun t ht => ?_, List.forall_mem_append.2 ⟨fun t ht => ?_, fun t ht => ?_⟩⟩
  · obtain ⟨front, hfront, h⟩ := hinParams t ht
    exact ⟨_, (hfront.map _).trans (List.prefix_append _ _), h⟩
  · obtain ⟨front, hfront, h⟩ := hinDecls t ht
    exact ⟨_, (List.prefix_append_right_inj _).2 (hfront.map _), h⟩
  · exact ⟨_, List.prefix_refl _, hinRest t ht⟩

end Body

/-! ### Functions and programs -/

namespace Program

variable (p : Program)

/-- Apart from what has become of the entities, a table holds the first global bindings so far, and in a body those of
the body so far. -/
def Holds (t : SymbolTable) : Prop :=
  ∃ gs, gs <+: p.entities ∧
    (t.bindings = (outside gs).bindings ∨
      ∃ b ∈ p.bodies, ∃ es, es <+: b.entities ∧ t.bindings = (within gs es).bindings)

variable {p} {b : Body} {last : Walk Unit} {check : Check Unit} {a : Analyzer}

/-- What names mean in a table that holds first bindings. -/
theorem Holds.means {t : SymbolTable} (h : p.Holds t) :
    ∃ gs es, gs <+: p.entities ∧ (∃ b ∈ p.bodies, es <+: b.entities) ∧ t.MeansFirsts gs es := by
  obtain ⟨gs, hgs, h | ⟨b, hb, es, hes, h⟩⟩ := h
  · exact ⟨gs, [], hgs, ⟨p.mainBody, by simp [bodies], List.nil_prefix⟩, SymbolTable.means_outside h⟩
  · exact ⟨gs, es, hgs, ⟨b, hb, hes⟩, SymbolTable.means_within h⟩

theorem bare_globalsAfter (p : Program) (done known : List Func) :
    (p.globalsAfter done known).map Entity.bare = (p.entitiesWith known).map Entity.bare := by
  simp [globalsAfter, Function.comp_def]

/-- The tables that a body leads through, from the opening of its scope to the end of it. -/
theorem inScope_holds (function : String) (hb : b ∈ p.bodies) {gs gs' : List Entity} (hgs : gs <+: p.entities)
    (hbare : gs'.map Entity.bare = gs.map Entity.bare) (hfollows : Follows last check) (hedits : last.Edits)
    (hnotes : check.Notes [] ((b.result.toList.flatMap Expr.calls).map (·.name))) (hsteady : check.Steady)
    (ha : a.symbols.plain = (outside gs').plain) :
    ∀ t ∈ ((Walk.inScope (b.walk function last)).run a).record, p.Holds t := by
  obtain ⟨outer, hrecord, hstate, -⟩ := Walk.Steps.run_inScope (b.walk_edits function hedits) a
  have hpush : a.symbols.push.StandsWithin gs [] := ⟨gs', hbare, SymbolTable.plain_push ha⟩
  have hinside := b.walk_bindings (a := { a with symbols := a.symbols.push }) function hfollows hedits hnotes hpush
  have houter : outer.bindings = (outside gs).bindings := by
    have hrun := inScope_reports (b.walk_follows function hfollows) a
    rw [← hstate, hrun, SymbolTable.bindings_of_plain (b.check_run function hnotes hsteady ha).1]
    exact SymbolTable.bindings_outside_congr (by simpa [Function.comp_def] using hbare)
  rw [hrecord]
  refine List.forall_mem_append.2 ⟨List.forall_mem_cons.2 ⟨?_, fun t ht => ?_⟩, List.forall_mem_singleton.2 ?_⟩
  · exact ⟨gs, hgs, .inr ⟨b, hb, [], List.nil_prefix, hpush.bindings⟩⟩
  · obtain ⟨es, hes, h⟩ := hinside t ht
    exact ⟨gs, hgs, .inr ⟨b, hb, es, hes, h⟩⟩
  · exact ⟨gs, hgs, .inl houter⟩

/-- The tables that a function leads through behind others. -/
theorem walk_func_holds {done more : List Func} {f : Func} (hp : p.funcs = done ++ f :: more)
    (ha : a.symbols.plain = (outside (p.globalsAfter done done)).plain) :
    ∀ t ∈ (f.walk.run a).record, p.Holds t := by
  have hknown (fs : List Func) (h : fs <+: p.funcs) : p.entitiesWith fs <+: p.entities :=
    (List.prefix_append_right_inj _).2 (h.map _)
  have hbefore := hknown done ⟨_, hp.symm⟩
  have hwith := hknown (done ++ [f]) ⟨more, by rw [hp, List.append_assoc, List.singleton_append]⟩
  have hdefined : (f.walkName.run a).state.symbols.plain = (outside (p.globalsAfter done (done ++ [f]))).plain := by
    rw [f.walkName_follows.symbols_eq]
    exact p.register_plain f ha
  have hstart : a.symbols.bindings = (outside (p.entitiesWith done)).bindings :=
    (SymbolTable.bindings_of_plain ha).trans (SymbolTable.bindings_outside_congr (p.bare_globalsAfter _ _))
  have hend : (f.walkName.run a).state.symbols.bindings = (outside (p.entitiesWith (done ++ [f]))).bindings :=
    (SymbolTable.bindings_of_plain hdefined).trans (SymbolTable.bindings_outside_congr (p.bare_globalsAfter _ _))
  have hname := SymbolTable.bindings_of_trail (f.walkName_edits _ a rfl) (by
    rw [SymbolTable.size_of_bindings hend, SymbolTable.size_of_bindings hstart, entitiesWith, entitiesWith,
      List.map_append, ← List.append_assoc]
    exact SymbolTable.size_outside_concat _ _)
  have hbody : f.asBody ∈ p.bodies := by simp [bodies, hp]
  have hinside := inScope_holds f.name hbody hwith (p.bare_globalsAfter done _) f.walkReturn_follows
    f.walkReturn_edits f.checkReturn_notes f.checkReturn_steady hdefined
  have hwalk : f.walk = (f.walkName >>= fun _ => Walk.inScope (f.asBody.walk f.name f.walkReturn)) := rfl
  rw [hwalk, Pass.run_bind]
  refine List.forall_mem_append.2 ⟨fun t ht => ?_, hinside⟩
  rcases hname t ht with h | h
  · exact ⟨_, hbefore, .inl (h.trans hstart)⟩
  · exact ⟨_, hwith, .inl (h.trans hend)⟩

theorem walk_funcs_hold {done fs : List Func} (hp : p.funcs = done ++ fs)
    (ha : a.symbols.plain = (outside (p.globalsAfter done done)).plain) :
    ∀ t ∈ ((fs.forM Func.walk).run a).record, p.Holds t := by
  induction fs generalizing done a with
  | nil => exact fun _ ht => absurd ht List.not_mem_nil
  | cons f more ih =>
    have hnext : (f.walk.run a).state.symbols.plain =
        (outside (p.globalsAfter (done ++ [f]) (done ++ [f]))).plain := by
      rw [f.walk_reports a]
      exact (p.check_func f ha).1
    have hcons : (f :: more).forM Func.walk = (f.walk >>= fun _ => more.forM Func.walk) := rfl
    rw [hcons, Pass.run_bind]
    refine List.forall_mem_append.2 ⟨walk_func_holds hp ha, ?_⟩
    exact ih (by rw [hp, List.append_assoc, List.singleton_append]) hnext

/-- **First bindings hold.**  Every table that an analyser comes through holds first bindings. -/
theorem tables_hold (p : Program) : ∀ t ∈ p.tables, p.Holds t := by
  have hdecls : ((p.decls.forM Decl.walk).run .fresh).state.symbols.plain = (outside (p.globalsAfter [] [])).plain := by
    rw [(Follows.forM Decl.walk_follows p.decls).symbols_eq, globalsAfter_nil]
    exact (Decl.checkAll_outside p.decls).1
  have hinDecls := Walk.bindings_forM (I := fun before t => t.plain = (outside (before.map Decl.entity)).plain)
    (a := .fresh) Decl.walk_follows Decl.walk_edits (fun before d t ht => Decl.check_outside ht d)
    (fun before t ht => SymbolTable.bindings_of_plain ht)
    (fun before d => by rw [List.map_append]; exact SymbolTable.size_outside_concat _ _) [] p.decls rfl
  have hfuncs := (p.check_funcs [] p.funcs hdecls).1
  have hstate := Walk.Reports.forM Func.walk_reports p.funcs ((p.decls.forM Decl.walk).run .fresh).state
  have hmainStart := congrArg (fun a => (Analyzer.symbols a).plain) hstate
  dsimp only at hmainStart
  rw [Pass.run_map, hfuncs] at hmainStart
  have hmain := inScope_holds "main" (List.mem_append_right _ (List.mem_singleton_self p.mainBody)) (List.prefix_refl _)
    (p.bare_globalsAfter p.funcs p.funcs) (Follows.pure ()) (Edits.pure ()) (Check.Notes.pure ()) (Check.Steady.pure ())
    hmainStart
  have hbody : (p.main.decls.forM Decl.walk >>= fun _ => Block.walk p.main.body) =
      p.mainBody.walk "main" (pure ()) := by
    rw [Body.walk]
    show _ = (pure () >>= fun _ => p.main.decls.forM Decl.walk >>= fun _ => Block.walk p.main.body >>= pure)
    rw [pure_bind, bind_pure]
  have hlook (a : Analyzer) : (Walk.symbols.run a).record = [] := rfl
  have hwarn (ws : List Warning) (a : Analyzer) : ((Walk.warn ws).run a).record = [] := rfl
  have htake (a : Analyzer) : (Walk.takeFindings.run a).record = [] := rfl
  rw [tables, analyzeWith, walk, hbody]
  simp only [Pass.run_bind, hlook, hwarn, htake, List.append_nil]
  refine List.forall_mem_cons.2 ⟨⟨[], List.nil_prefix, .inl rfl⟩, List.forall_mem_append.2
    ⟨fun t ht => ?_, List.forall_mem_append.2 ⟨walk_funcs_hold rfl hdecls, hmain⟩⟩⟩
  obtain ⟨front, hfront, h⟩ := hinDecls t ht
  exact ⟨_, (hfront.map _).trans (List.prefix_append _ _), .inl h⟩

end Program

end ThreeAddress
