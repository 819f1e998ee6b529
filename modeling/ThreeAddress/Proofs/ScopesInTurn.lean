import Mathlib.Data.List.TakeWhile
import ThreeAddress.Proofs.SeenEntities

/-!
# Scopes in turn

Checking a program comes by its scopes one after another: the global declarations, the body of each function, and the
main part.  In front of each part the table can be told from the tree alone: every scope holds the first bindings of
what was bound in it so far, and a global entity was touched if an earlier body touches it.

* `SymbolTable.outside`, `SymbolTable.within` — the tables of first bindings, between bodies and in a body;
* `Body.marks`, `Entity.users`, `Entity.settled` — the global entities that a body touches, the functions that can
  touch one, and what has become of it behind some functions;
* `Body.faults`, `Program.faultsInTurn` — what each part reports over the table of first bindings in front of it;
* `Body.neglected`, `Program.neglected` — the entities that nothing touches while their scope is open;
* `Body.check_run`, `Program.check_func`, `Program.analyze_eq` — checking reports these faults and warns of these
  entities.
-/

namespace ThreeAddress

variable {α β : Type}

/-! ### Tables of first bindings -/

/-- The table between bodies, when some entities were bound globally. -/
def SymbolTable.outside (globals : List Entity) : SymbolTable := ⟨[], Scope.of globals⟩

/-- The table in a body, when some entities were bound globally and others in the body. -/
def SymbolTable.within (globals locals : List Entity) : SymbolTable := ⟨[Scope.of locals], Scope.of globals⟩

/-! ### Global entities and bodies -/

namespace Body

/-- The names that a body sets or copies where they are not its own. -/
def touchedOutside (b : Body) : List String := b.touched.filter fun x => !b.scope.contains x

/-- Whether a body touches a global entity: it calls a function, or sets or copies anything else. -/
def marks (b : Body) (e : Entity) : Bool := e.isAmong b.touchedOutside b.callees

/-- The entities of a body that it leaves as they were declared. -/
def neglected (b : Body) : List Entity :=
  (firsts b.entities).filter fun e => e.isUntouched && !b.touched.contains e.name

/-- The check of a body, that of its return at last. -/
def check (function : String) (b : Body) (last : Check Unit) : Check Unit := do
  b.params.forM (Param.check function)
  b.decls.forM Decl.check
  Block.check b.block
  last

/-- What the parts of a body report, each over the first bindings in front of it. -/
def faults (function : String) (globals : List Entity) (b : Body) (last : Check Unit) : List Fault :=
  inTurn (fun before p => ((p.check function).run (.within globals (before.map Param.entity))).record) [] b.params ++
    (inTurn (fun before d =>
      (d.check.run (.within globals (b.params.map Param.entity ++ before.map Decl.entity))).record) [] b.decls ++
    ((Block.check b.block >>= fun _ => last).run (.within globals b.entities)).record)

end Body

/-- The functions in which a global entity is in view: a function is from its first definition on. -/
def Entity.users (e : Entity) (fs : List Func) : List Func :=
  if e.isFunction then fs.dropWhile (·.name ≠ e.name) else fs

/-- What has become of a global entity behind some functions. -/
def Entity.settled (done : List Func) (e : Entity) : Entity :=
  if e.isUntouched && (e.users done).any (·.asBody.marks e) then e.withState .used else e

namespace Program

/-- What is bound globally down to some functions, behind those functions of them that are done. -/
def globalsAfter (p : Program) (done known : List Func) : List Entity :=
  (p.entitiesWith known).map (Entity.settled done)

/-- What a function reports behind others: first about its name, then in its body. -/
def functionFaults (p : Program) (done : List Func) (f : Func) : List Fault :=
  (f.register.run (.outside (p.globalsAfter done done))).record ++
    f.asBody.faults f.name (p.globalsAfter done (done ++ [f])) f.checkReturn

/-- What the parts of a program report, each over the first bindings in front of it. -/
def faultsInTurn (p : Program) : List Fault :=
  inTurn (fun before d => (d.check.run (.outside (before.map Decl.entity))).record) [] p.decls ++
    (inTurn p.functionFaults [] p.funcs ++
      p.mainBody.faults "main" (p.globalsAfter p.funcs p.funcs) (pure ()))

/-- The global entities that no body touches from their definition on. -/
def neglected (p : Program) : List Entity :=
  (firsts p.entities).filter fun e =>
    e.isUntouched && !((e.users p.funcs).map Func.asBody ++ [p.mainBody]).any (·.marks e)

end Program

/-! ### One binding more -/

namespace Scope

variable {s : Scope} {es : List Entity} {e e' : Entity} {touched called : List String}

theorem names_of (es : List Entity) : (Scope.of es).names = (firsts es).map (·.name) := rfl

theorem of_note (touched called : List String) (es : List Entity) :
    (Scope.of es).note touched called = Scope.of (es.map (Entity.note touched called)) := by
  rw [note, of, of, firsts_map (Entity.note_name touched called)]

theorem contains_of (es : List Entity) (x : String) : (Scope.of es).contains x = (es.map (·.name)).contains x := by
  rw [contains_iff, names_of, Bool.eq_iff_iff, List.contains_iff_mem, List.contains_iff_mem, mem_names_firsts]

/-- A scope that holds first bindings takes up one more entity, if its name is new. -/
theorem plain_define (hs : s.plain = (Scope.of es).plain) (e : Entity) :
    ((s.define e).toOption.getD s).plain = (Scope.of (es ++ [e])).plain := by
  have hnames : s.names = (firsts es).map (·.name) := by rw [← names_plain, hs, names_plain, names_of]
  have hentities : s.entities.map Entity.plain = (firsts es).map Entity.plain := congrArg Scope.entities hs
  have htaken : s.contains e.name = (es.map (·.name)).contains e.name := by
    rw [contains_iff, hnames, ← names_of, ← contains_iff, contains_of]
  rw [plain, plain, of, firsts_concat]
  cases hd : s.define e with
  | ok s' =>
    obtain ⟨hfree, -⟩ := names_define hd
    rw [← contains_iff, htaken, ← Bool.not_eq_true, List.contains_iff_mem] at hfree
    rw [if_neg hfree, Except.toOption, Option.getD_some, define_entities hd, List.map_append, List.map_append,
      hentities]
  | error old =>
    have hbound : s.contains e.name = true := by
      rw [contains_eq]
      cases hl : s.lookup? e.name with
      | some found => rfl
      | none =>
        obtain ⟨s', hs'⟩ := define_eq_ok_iff.2 hl
        rw [hs'] at hd
        cases hd
    rw [htaken, List.contains_iff_mem] at hbound
    rw [if_pos hbound, List.append_nil, Except.toOption, Option.getD_none, hentities]

/-- Of an entity whose name is taken, only the name counts. -/
theorem of_concat_congr (hname : e.name = e'.name) (h : e.name ∈ es.map (·.name) ∨ e = e') :
    Scope.of (es ++ [e]) = Scope.of (es ++ [e']) := by
  rcases h with h | rfl
  · rw [of, of, firsts_concat, firsts_concat, if_pos h, if_pos (hname ▸ h)]
  · rfl

end Scope

namespace SymbolTable

variable {t : SymbolTable} {gs es : List Entity} {e : Entity} {touched called : List String}

theorem tidy_outside (gs : List Entity) : (outside gs).Tidy :=
  ⟨Nat.zero_le _, fun _ h => absurd h List.not_mem_nil, nodup_firsts gs⟩

theorem tidy_within (gs es : List Entity) : (within gs es).Tidy := by
  refine ⟨Nat.le_refl _, fun names h => ?_, nodup_firsts gs⟩
  rw [List.mem_singleton.1 h]
  exact nodup_firsts es

theorem note_outside (called : List String) (gs : List Entity) :
    (outside gs).note [] called = outside (gs.map (Entity.note [] called)) := by
  simp [note, outside, Scope.of_note]

theorem note_within (touched called : List String) (gs es : List Entity) :
    (within gs es).note touched called =
      within (gs.map (Entity.note (touched.filter fun x => !(es.map (·.name)).contains x) called))
        (es.map (Entity.note touched [])) := by
  simp [note, within, Scope.of_note, Scope.contains_of]

/-- A function that is called looks the same. -/
theorem seen_within_called (called : List String) (gs es : List Entity) :
    (within (gs.map (Entity.note [] called)) es).seen = (within gs es).seen := by
  rw [within, within, ← Scope.of_note]
  simp [seen, Scope.seen_note_called]

/-- A table in a body has a single scope inside the global one. -/
theorem plain_eq_within (ht : t.plain = (within gs es).plain) :
    ∃ s, t.inner = [s] ∧ s.plain = (Scope.of es).plain ∧ t.globals.plain = (Scope.of gs).plain := by
  obtain ⟨inner, globals⟩ := t
  simp only [plain, within, List.map_cons, List.map_nil, SymbolTable.mk.injEq, List.map_eq_singleton_iff] at ht
  obtain ⟨⟨s, rfl, hs⟩, hglobals⟩ := ht
  exact ⟨s, rfl, hs, hglobals⟩

/-- A table between bodies has no scope inside the global one. -/
theorem plain_eq_outside (ht : t.plain = (outside gs).plain) :
    t.inner = [] ∧ t.globals.plain = (Scope.of gs).plain := by
  simpa only [plain, outside, List.map_nil, SymbolTable.mk.injEq, List.map_eq_nil_iff] using ht

/-- A scope is opened. -/
theorem plain_push (ht : t.plain = (outside gs).plain) : t.push.plain = (within gs []).plain := by
  obtain ⟨hinner, hglobals⟩ := plain_eq_outside ht
  simp only [plain, push, within, hinner, hglobals]
  rfl

theorem seen_of_plain {t' : SymbolTable} (h : t.plain = t'.plain) : t.seen = t'.seen := by
  rw [← seen_plain, h, seen_plain]

theorem plain_define_within (ht : t.plain = (within gs es).plain) (e : Entity) :
    ((t.define e).toOption.getD t).plain = (within gs (es ++ [e])).plain := by
  obtain ⟨s, hinner, hs, hglobals⟩ := plain_eq_within ht
  have hnext := Scope.plain_define hs e
  simp only [define, hinner]
  cases hd : s.define e with
  | ok s' =>
    rw [hd] at hnext
    simpa [plain, within, Except.map, Except.toOption, hglobals] using hnext
  | error old =>
    rw [hd] at hnext
    simpa [plain, within, Except.map, Except.toOption, hglobals, hinner] using hnext

theorem plain_defineGlobal_outside (ht : t.plain = (outside gs).plain) (e : Entity) :
    ((t.defineGlobal e).toOption.getD t).plain = (outside (gs ++ [e])).plain := by
  obtain ⟨hinner, hglobals⟩ := plain_eq_outside ht
  have hnext := Scope.plain_define hglobals e
  simp only [defineGlobal]
  cases hd : t.globals.define e with
  | ok g =>
    rw [hd] at hnext
    simpa [plain, outside, Except.map, Except.toOption, hinner] using hnext
  | error old =>
    rw [hd] at hnext
    simpa [plain, outside, Except.map, Except.toOption, hinner] using hnext

theorem plain_define_outside (ht : t.plain = (outside gs).plain) (e : Entity) :
    ((t.define e).toOption.getD t).plain = (outside (gs ++ [e])).plain := by
  obtain ⟨inner, globals⟩ := t
  obtain rfl : inner = [] := (plain_eq_outside ht).1
  exact plain_defineGlobal_outside ht e

end SymbolTable

/-! ### Declarations and parameters -/

/-- What a check leaves behind and reports, item by item. -/
theorem Check.forM_inTurn {step : β → Check Unit} {I : List β → SymbolTable → Prop} {f : List β → β → List Fault}
    (h : ∀ before b t, I before t →
      I (before ++ [b]) ((step b).run t).state ∧ ((step b).run t).record = f before b)
    (before bs : List β) {t : SymbolTable} (ht : I before t) :
    I (before ++ bs) ((bs.forM step).run t).state ∧ ((bs.forM step).run t).record = inTurn f before bs := by
  induction bs generalizing before t with
  | nil =>
    rw [List.append_nil]
    exact ⟨ht, rfl⟩
  | cons b more ih =>
    obtain ⟨hstate, hrecord⟩ := h before b t ht
    obtain ⟨hlast, hmore⟩ := ih (before ++ [b]) hstate
    rw [List.append_assoc] at hlast
    have hcons : (b :: more).forM step = (step b >>= fun _ => more.forM step) := rfl
    rw [hcons, Pass.run_bind, inTurn, hrecord, hmore]
    exact ⟨hlast, rfl⟩

open Check (Looks Notes Steady)

theorem run_bindEntity_state (define : SymbolTable → Except Entity SymbolTable) (cause : Entity → SemanticCause)
    (span : Span) (since : String) (t : SymbolTable) :
    ((bindEntity define cause span since).run t).state = (define t).toOption.getD t := by
  unfold bindEntity
  rw [Pass.run_bind, Pass.run_get]
  dsimp only
  cases define t <;> rfl

/-- The names that a declaration calls. -/
def Decl.callees (d : Decl) : List String := (d.collect Expr.calls).map (·.name)

/-- The name of a declaration is bound behind its value. -/
theorem Decl.check_binds (d : Decl) {t : SymbolTable} (ht : t.Tidy) :
    ∃ u : SymbolTable, u.plain = (t.note [] d.callees).plain ∧
      (d.check.run t).state = (u.define d.entity).toOption.getD u := by
  cases d with
  | var name type span =>
    refine ⟨t, by simp [callees, collect], ?_⟩
    rw [Decl.check, Pass.run_bind, checkReserved_looks]
    exact run_bindEntity_state (·.define (.unassigned name type span)) _ _ _ t
  | const name type value span =>
    refine ⟨_, value.check_notes t ht, ?_⟩
    rw [Decl.check, Pass.run_bind, Pass.run_bind, checkReserved_looks, Pass.run_bind, Looks.require]
    exact run_bindEntity_state (·.define (.constant name type span)) _ _ _ _

section Locals

variable {gs es : List Entity} {t : SymbolTable}

theorem Param.check_within (function : String) (ht : t.plain = (SymbolTable.within gs es).plain) (p : Param) :
    ((p.check function).run t).state.plain = (SymbolTable.within gs (es ++ [p.entity])).plain := by
  unfold Param.check
  rw [Pass.run_bind, checkReserved_looks, run_bindEntity_state]
  exact SymbolTable.plain_define_within ht p.entity

theorem Decl.check_within (ht : t.plain = (SymbolTable.within gs es).plain) (d : Decl) :
    (d.check.run t).state.plain =
      (SymbolTable.within (gs.map (Entity.note [] d.callees)) (es ++ [d.entity])).plain := by
  obtain ⟨u, hu, hstate⟩ := d.check_binds ((SymbolTable.tidy_within gs es).of_plain ht)
  rw [SymbolTable.plain_note, ht, ← SymbolTable.plain_note, SymbolTable.note_within, List.filter_nil] at hu
  rw [hstate]
  simpa [funext Entity.note_nil] using SymbolTable.plain_define_within hu d.entity

theorem Param.checkAll_within (function : String) (ht : t.plain = (SymbolTable.within gs []).plain)
    (params : List Param) :
    ((params.forM (Param.check function)).run t).state.plain =
        (SymbolTable.within gs (params.map Param.entity)).plain ∧
      ((params.forM (Param.check function)).run t).record =
        inTurn (fun before p => ((p.check function).run (.within gs (before.map Param.entity))).record) [] params := by
  refine Check.forM_inTurn
    (I := fun before t => t.plain = (SymbolTable.within gs (before.map Param.entity)).plain)
    (fun before p t ht => ⟨?_, ?_⟩) [] params ht
  · rw [List.map_append]
    exact Param.check_within function ht p
  · exact (p.check_blind function).record_eq (SymbolTable.seen_of_plain ht)

/-- Declarations call functions in the values of constants. -/
theorem Decl.checkAll_within (ht : t.plain = (SymbolTable.within gs es).plain) (ds : List Decl) :
    ((ds.forM Decl.check).run t).state.plain =
        (SymbolTable.within (gs.map (Entity.note [] (ds.flatMap Decl.callees))) (es ++ ds.map Decl.entity)).plain ∧
      ((ds.forM Decl.check).run t).record =
        inTurn (fun before d => (d.check.run (.within gs (es ++ before.map Decl.entity))).record) [] ds := by
  refine Check.forM_inTurn
    (I := fun before t => t.plain = (SymbolTable.within (gs.map (Entity.note [] (before.flatMap Decl.callees)))
      (es ++ before.map Decl.entity)).plain)
    (fun before d t ht => ⟨?_, ?_⟩) [] ds ?_
  · have hnext := Decl.check_within ht d
    rw [List.map_map, Function.comp_def] at hnext
    simpa [Entity.note_note, List.append_assoc] using hnext
  · refine d.check_blind.record_eq ((SymbolTable.seen_of_plain ht).trans ?_)
    exact SymbolTable.seen_within_called _ _ _
  · simpa [funext Entity.note_nil] using ht

end Locals

/-- Global declarations come before all functions, so their values call none. -/
theorem Decl.check_outside {before : List Decl} {t : SymbolTable}
    (ht : t.plain = (SymbolTable.outside (before.map Decl.entity)).plain) (d : Decl) :
    (d.check.run t).state.plain = (SymbolTable.outside ((before ++ [d]).map Decl.entity)).plain := by
  obtain ⟨u, hu, hstate⟩ := d.check_binds ((SymbolTable.tidy_outside _).of_plain ht)
  have hsame : (before.map Decl.entity).map (Entity.note [] d.callees) = before.map Decl.entity := by
    rw [List.map_map]
    refine List.map_congr_left fun d' _ => Entity.note_of_not_among ?_
    simp [Entity.isAmong]
  rw [SymbolTable.plain_note, ht, ← SymbolTable.plain_note, SymbolTable.note_outside, hsame] at hu
  rw [hstate, List.map_append]
  exact SymbolTable.plain_define_outside hu d.entity

theorem Decl.checkAll_outside (ds : List Decl) :
    ((ds.forM Decl.check).run .empty).state.plain = (SymbolTable.outside (ds.map Decl.entity)).plain ∧
      ((ds.forM Decl.check).run .empty).record =
        inTurn (fun before d => (d.check.run (.outside (before.map Decl.entity))).record) [] ds :=
  Check.forM_inTurn (I := fun before t => t.plain = (SymbolTable.outside (before.map Decl.entity)).plain)
    (fun _ d _ ht => ⟨Decl.check_outside ht d, d.check_blind.record_eq (SymbolTable.seen_of_plain ht)⟩) [] ds rfl

/-! ### Bodies -/

theorem Scope.warnings_plain (s : Scope) : s.plain.warnings = s.warnings := by
  have hwarning (e : Entity) : e.plain.warning = e.warning := by
    unfold Entity.plain
    split <;> rfl
  simp [Scope.warnings, plain, List.filter_map, Function.comp_def, hwarning]

/-- Only names and kinds make up a warning. -/
theorem Entity.warning_note (touched called : List String) (e : Entity) :
    (e.note touched called).warning = e.warning := by
  unfold note
  split <;> rfl

/-- The entities of a scope that are left as they were declared. -/
theorem Scope.warnings_of_note (touched called : List String) (es : List Entity) :
    ((Scope.of es).note touched called).warnings =
      ((firsts es).filter fun e => e.isUntouched && !e.isAmong touched called).map Entity.warning := by
  simp [Scope.warnings, note, of, List.filter_map, Function.comp_def, Entity.warning_note, Entity.note_isUntouched]

namespace Body

variable (function : String) (b : Body)

/-- The names that are called behind the declarations of a body. -/
theorem callees_eq : b.callees = b.decls.flatMap Decl.callees ++
    ((Block.calls b.block).map (·.name) ++ (b.result.toList.flatMap Expr.calls).map (·.name)) := by
  rw [callees, calls, List.map_append, List.map_append, List.map_flatMap]
  rfl

/-- The table at the end of a body, before its scope is closed. -/
theorem check_within {last : Check Unit} (hlast : last.Notes [] ((b.result.toList.flatMap Expr.calls).map (·.name)))
    (hsteady : last.Steady) {gs : List Entity} {t : SymbolTable} (ht : t.plain = (SymbolTable.within gs []).plain) :
    ((b.check function last).run t).state.plain =
        (SymbolTable.within (gs.map (Entity.note b.touchedOutside b.callees))
          (b.entities.map (Entity.note b.touched []))).plain ∧
      ((b.check function last).run t).record = b.faults function gs last := by
  obtain ⟨hparams, hparamFaults⟩ := Param.checkAll_within function ht b.params
  obtain ⟨hdecls, hdeclFaults⟩ := Decl.checkAll_within hparams b.decls
  have hblock := (Block.check_notes b.block).bind fun _ => hlast
  have hend := hblock _ ((SymbolTable.tidy_within _ _).of_plain hdecls)
  have hrest := ((Block.check_steady b.block).bind fun _ => hsteady).blind.record_eq
    ((SymbolTable.seen_of_plain hdecls).trans (SymbolTable.seen_within_called _ _ _))
  rw [SymbolTable.plain_note, hdecls, ← SymbolTable.plain_note, SymbolTable.note_within, List.map_map] at hend
  have hnote : Entity.note (((Block.visits b.block).flatMap Visit.touched ++ []).filter fun x =>
        !((b.params.map Param.entity ++ b.decls.map Decl.entity).map Entity.name).contains x)
      ((Block.calls b.block).map (·.name) ++ (b.result.toList.flatMap Expr.calls).map (·.name)) ∘
        Entity.note [] (b.decls.flatMap Decl.callees) = Entity.note b.touchedOutside b.callees := by
    funext e
    rw [Function.comp_apply, Entity.note_note, ← callees_eq, List.nil_append, List.append_nil, touchedOutside, touched,
      ← names_entities]
    rfl
  rw [hnote, List.append_nil] at hend
  refine ⟨hend, ?_⟩
  rw [check, Pass.run_bind, Pass.run_bind, hparamFaults, hdeclFaults, hrest]
  rfl

/-- **Bodies.**  A body is checked in a scope of its own.  It touches global entities, reports what its parts report
over their tables, and warns of the entities that it neglects. -/
theorem check_run {last : Check Unit} (hlast : last.Notes [] ((b.result.toList.flatMap Expr.calls).map (·.name)))
    (hsteady : last.Steady) {gs : List Entity} {t : SymbolTable} (ht : t.plain = (SymbolTable.outside gs).plain) :
    ((inScope (b.check function last)).run t).state.plain =
        (SymbolTable.outside (gs.map (Entity.note b.touchedOutside b.callees))).plain ∧
      ((inScope (b.check function last)).run t).record = b.faults function gs last ∧
      ((inScope (b.check function last)).run t).value = b.neglected.map Entity.warning := by
  obtain ⟨hstate, hrecord⟩ := b.check_within function hlast hsteady (SymbolTable.plain_push ht)
  obtain ⟨s, hinner, hs, hglobals⟩ := SymbolTable.plain_eq_within hstate
  have hpop : ((b.check function last).run t.push).state.pop? =
      some (s, { ((b.check function last).run t.push).state with inner := [] }) := by
    rw [SymbolTable.pop?, hinner]
  have hrun : (inScope (b.check function last)).run t =
      ⟨s.warnings, { ((b.check function last).run t.push).state with inner := [] },
        ((b.check function last).run t.push).record⟩ := by
    simp only [inScope, Pass.run_bind, Pass.run_modify, Pass.run_get, hpop, Pass.run_pure, List.append_nil,
      List.nil_append]
  rw [hrun]
  refine ⟨?_, hrecord, ?_⟩
  · simp [SymbolTable.plain, SymbolTable.outside, hglobals]
  · dsimp only
    rw [← s.warnings_plain, hs, Scope.warnings_plain, ← Scope.of_note, Scope.warnings_of_note, neglected]
    refine congrArg (List.map Entity.warning) (List.filter_congr fun e he => ?_)
    rw [Entity.isAmong, b.entities_isFunction e (mem_of_mem_firsts he)]
    rfl

end Body

/-! ### Functions -/

namespace Entity

variable {done : List Func} {f : Func} {e : Entity}

@[simp] theorem settled_name (done : List Func) (e : Entity) : (e.settled done).name = e.name := by
  unfold settled
  split <;> rfl

@[simp] theorem settled_isFunction (done : List Func) (e : Entity) : (e.settled done).isFunction = e.isFunction := by
  unfold settled
  split <;> rfl

theorem settled_warning (done : List Func) (e : Entity) : (e.settled done).warning = e.warning := by
  unfold settled
  split <;> rfl

theorem settled_isUntouched (done : List Func) (e : Entity) :
    (e.settled done).isUntouched = (e.isUntouched && !(e.users done).any (·.asBody.marks e)) := by
  unfold settled
  cases hu : e.isUntouched with
  | false => simpa using hu
  | true =>
    cases (e.users done).any (·.asBody.marks e) with
    | true => rfl
    | false => simpa using hu

/-- Nobody uses a function whose name is new. -/
theorem settled_of_new (hf : e.isFunction = true) (hnew : e.name ∉ done.map (·.name)) : e.settled done = e := by
  have husers : e.users done = [] := by
    rw [users, if_pos hf, List.dropWhile_eq_nil_iff]
    intro f hdone
    refine decide_eq_true fun hname => hnew ?_
    exact List.mem_map.2 ⟨f, hdone, hname⟩
  simp [settled, husers]

/-- The next function can use what is known behind its definition. -/
theorem users_concat (hknown : e.isFunction = true → e.name ∈ (done ++ [f]).map Func.name) :
    e.users (done ++ [f]) = e.users done ++ [f] := by
  unfold users
  cases hf : e.isFunction with
  | false => rfl
  | true =>
    rw [if_pos rfl, if_pos rfl, List.dropWhile_append]
    split
    · rename_i hnone
      rw [List.isEmpty_iff] at hnone
      have hlast : f.name = e.name := by
        have hmem := hknown hf
        rw [List.map_append, List.mem_append] at hmem
        rcases hmem with hmem | hmem
        · obtain ⟨g, hg, hname⟩ := List.mem_map.1 hmem
          exact absurd hname (by simpa using List.dropWhile_eq_nil_iff.1 hnone g hg)
        · exact (List.mem_singleton.1 hmem).symm
      rw [hnone, List.dropWhile_cons_of_neg (by simp [hlast]), List.nil_append]
    · rfl

/-- The body of the next function. -/
theorem settled_concat (hknown : e.isFunction = true → e.name ∈ (done ++ [f]).map Func.name) :
    (e.settled done).note f.asBody.touchedOutside f.asBody.callees = e.settled (done ++ [f]) := by
  unfold settled
  rw [users_concat hknown, List.any_append]
  cases hu : e.isUntouched with
  | false => exact note_of_touched hu
  | true =>
    cases (e.users done).any (·.asBody.marks e) with
    | true => exact note_of_touched rfl
    | false => simp [note, hu, Body.marks]

end Entity

namespace Program

variable (p : Program) {done : List Func} {t : SymbolTable}

theorem isFunction_of_entitiesWith {fs : List Func} {e : Entity} (he : e ∈ p.entitiesWith fs)
    (hf : e.isFunction = true) : e.name ∈ fs.map Func.name := by
  rcases List.mem_append.1 he with he | he
  · obtain ⟨d, -, rfl⟩ := List.mem_map.1 he
    rw [d.entity_isFunction] at hf
    cases hf
  · obtain ⟨f, hmem, rfl⟩ := List.mem_map.1 he
    exact List.mem_map.2 ⟨f, hmem, rfl⟩

/-- In front of all functions. -/
theorem globalsAfter_nil : p.globalsAfter [] [] = p.decls.map Decl.entity := by
  simp [globalsAfter, entitiesWith, Entity.settled, Entity.users]

/-- A function is defined. -/
theorem globalsAfter_define (done : List Func) (f : Func) :
    Scope.of (p.globalsAfter done done ++ [f.entity]) = Scope.of (p.globalsAfter done (done ++ [f])) := by
  have hconcat : p.globalsAfter done (done ++ [f]) = p.globalsAfter done done ++ [f.entity.settled done] := by
    simp [globalsAfter, entitiesWith]
  rw [hconcat]
  refine Scope.of_concat_congr (Entity.settled_name _ _).symm ?_
  by_cases hnew : f.name ∈ done.map Func.name
  · left
    simp only [globalsAfter, entitiesWith, List.map_append, List.map_map, List.mem_append, Function.comp_def,
      Entity.settled_name, Func.entity_name]
    exact .inr hnew
  · exact .inr (Entity.settled_of_new f.entity_isFunction hnew).symm

/-- The body of a function is checked. -/
theorem globalsAfter_note (done : List Func) (f : Func) :
    (p.globalsAfter done (done ++ [f])).map (Entity.note f.asBody.touchedOutside f.asBody.callees) =
      p.globalsAfter (done ++ [f]) (done ++ [f]) := by
  rw [globalsAfter, globalsAfter, List.map_map]
  exact List.map_congr_left fun e he => Entity.settled_concat (p.isFunction_of_entitiesWith he)

/-- The name of a function is bound. -/
theorem register_plain (f : Func) (ht : t.plain = (SymbolTable.outside (p.globalsAfter done done)).plain) :
    (f.register.run t).state.plain = (SymbolTable.outside (p.globalsAfter done (done ++ [f]))).plain := by
  unfold Func.register
  rw [Pass.run_bind, checkReserved_looks, run_bindEntity_state, SymbolTable.outside, ← p.globalsAfter_define]
  exact SymbolTable.plain_defineGlobal_outside ht f.entity

/-- **Functions.**  A function is defined behind others, and its body is checked. -/
theorem check_func (f : Func) (ht : t.plain = (SymbolTable.outside (p.globalsAfter done done)).plain) :
    (f.check.run t).state.plain = (SymbolTable.outside (p.globalsAfter (done ++ [f]) (done ++ [f]))).plain ∧
      (f.check.run t).record = p.functionFaults done f ∧
      (f.check.run t).value = f.asBody.neglected.map Entity.warning := by
  have hname := f.register_blind.record_eq (SymbolTable.seen_of_plain ht)
  obtain ⟨hstate, hrecord, hvalue⟩ :=
    f.asBody.check_run f.name f.checkReturn_notes f.checkReturn_steady (p.register_plain f ht)
  rw [p.globalsAfter_note] at hstate
  have hcheck : f.check = (f.register >>= fun _ => inScope (f.asBody.check f.name f.checkReturn)) := rfl
  rw [hcheck, Pass.run_bind, functionFaults, hname, hrecord]
  exact ⟨hstate, rfl, hvalue⟩

theorem check_funcs (done fs : List Func)
    (ht : t.plain = (SymbolTable.outside (p.globalsAfter done done)).plain) :
    ((fs.mapM Func.check).run t).state.plain =
        (SymbolTable.outside (p.globalsAfter (done ++ fs) (done ++ fs))).plain ∧
      ((fs.mapM Func.check).run t).record = inTurn p.functionFaults done fs ∧
      ((fs.mapM Func.check).run t).value = fs.map fun f => f.asBody.neglected.map Entity.warning := by
  induction fs generalizing done t with
  | nil =>
    rw [List.mapM_nil, List.append_nil]
    exact ⟨ht, rfl, rfl⟩
  | cons f more ih =>
    obtain ⟨hstate, hrecord, hvalue⟩ := p.check_func f ht
    obtain ⟨hlast, hmore, hvalues⟩ := ih (done ++ [f]) hstate
    rw [List.append_assoc] at hlast
    rw [List.mapM_cons, Pass.run_bind, Pass.run_bind, Pass.run_pure, inTurn, hrecord, hmore, hvalue, hvalues,
      List.append_nil]
    exact ⟨hlast, rfl, rfl⟩

/-! ### Programs -/

/-- The table behind all functions, and behind the main part. -/
theorem warnings_globals :
    ((Scope.of (p.globalsAfter p.funcs p.funcs)).note p.mainBody.touchedOutside p.mainBody.callees).warnings =
      p.neglected.map Entity.warning := by
  rw [Scope.warnings_of_note, globalsAfter, firsts_map (Entity.settled_name p.funcs), List.filter_map, List.map_map]
  have hwarning : Entity.warning ∘ Entity.settled p.funcs = Entity.warning := funext (Entity.settled_warning p.funcs)
  rw [hwarning, neglected, entities]
  refine congrArg (List.map Entity.warning) (List.filter_congr fun e _ => ?_)
  have hmain : (e.settled p.funcs).isAmong p.mainBody.touchedOutside p.mainBody.callees = p.mainBody.marks e := by
    rw [Entity.isAmong, Entity.settled_isFunction, Entity.settled_name]
    rfl
  simp [Entity.settled_isUntouched, hmain, Function.comp_def, Bool.and_assoc]

/-- **Programs.**  Checking reports the faults of the parts in turn, and warns of what is neglected. -/
theorem analyze_eq :
    p.analyze = ⟨p.faultsInTurn, (p.bodies.flatMap Body.neglected ++ p.neglected).map Entity.warning⟩ := by
  obtain ⟨hdecls, hdeclFaults⟩ := Decl.checkAll_outside p.decls
  rw [← p.globalsAfter_nil] at hdecls
  obtain ⟨hfuncs, hfuncFaults, hfuncWarnings⟩ := p.check_funcs [] p.funcs hdecls
  obtain ⟨hmain, hmainFaults, hmainWarnings⟩ :=
    p.mainBody.check_run "main" (Notes.pure ()) (Steady.pure ()) hfuncs
  have hbody : (p.main.decls.forM Decl.check >>= fun _ => Block.check p.main.body) =
      p.mainBody.check "main" (pure ()) := by
    rw [Body.check]
    show _ = (pure () >>= fun _ => p.main.decls.forM Decl.check >>= fun _ => Block.check p.main.body >>= pure)
    rw [pure_bind, bind_pure]
  have hglobals := congrArg (fun t => (SymbolTable.globals t).warnings) hmain
  simp only [SymbolTable.plain, SymbolTable.outside, Scope.warnings_plain, ← Scope.of_note, List.nil_append,
    p.warnings_globals] at hglobals
  rw [analyze, analyzeIn, check]
  simp only [hbody, Pass.run_bind, Pass.run_get, Pass.run_pure, hdeclFaults, hfuncFaults, hfuncWarnings,
    hmainFaults, hmainWarnings, hglobals, faultsInTurn, List.nil_append, List.append_nil, Findings.mk.injEq, true_and]
  simp [bodies, List.flatMap_def, Function.comp_def]

end Program

end ThreeAddress
