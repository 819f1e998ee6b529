import ThreeAddress.Proofs.CallsInTurn
import ThreeAddress.Proofs.FirstBindings

/-!
# Names that are touched

What checking a body does to the table can be told from the names in it: which of them assignments set or copy, and
which are called.  A variable is touched where its name is set or copied, in the innermost scope that holds it, and a
function where its name is called.

* `Body.touched`, `Body.callees` — the names that the assignments of a body set or copy, and those that it calls;
* `Entity.plain`, `SymbolTable.plain` — entities and tables, however an entity was touched;
* `Entity.note`, `SymbolTable.note` — what is touched if some names are;
* `SymbolTable.Tidy` — tables as they are met: one scope inside the global one at most, and names distinct in each;
* `Check.Notes` — a check touches some names, and its laws;
* `Expr.check_notes`, `Stmt.check_notes`, `Func.checkReturn_notes` — the parts of a body.
-/

namespace ThreeAddress

variable {α β : Type}

/-! ### Names in a body -/

/-- The names that an assignment sets or copies. -/
def Visit.touched : Visit → List String
  | .assignment target value => value.referencedName?.toList ++ [target]
  | .block _ => []

namespace Body

/-- The names that the assignments of a body set or copy. -/
def touched (b : Body) : List String := (Block.visits b.block).flatMap Visit.touched

/-- The calls in a body, those in the values of its constants included. -/
def calls (b : Body) : List Call :=
  b.decls.flatMap (Decl.collect Expr.calls) ++ (Block.calls b.block ++ b.result.toList.flatMap Expr.calls)

/-- The names that a body calls. -/
def callees (b : Body) : List String := b.calls.map (·.name)

end Body

/-- The names that an expression calls. -/
def Expr.callees (e : Expr) : List String := e.calls.map (·.name)

/-! ### Entities and scopes -/

namespace Entity

/-- An entity, however it was touched. -/
def plain (e : Entity) : Entity :=
  if e.isUntouched || (e.isConstant && !e.isFunction) then e else e.withState .used

/-- Whether a function is among the names that are called, or anything else among those that are set or copied. -/
def isAmong (touched called : List String) (e : Entity) : Bool :=
  if e.isFunction then called.contains e.name else touched.contains e.name

/-- An entity behind some names: it was touched if it is among them. -/
def note (touched called : List String) (e : Entity) : Entity :=
  if e.isUntouched && e.isAmong touched called then e.withState .used else e

variable {touched called touched' called' : List String} {e : Entity} {state : EntityState}

@[simp] theorem plain_name (e : Entity) : e.plain.name = e.name := by
  unfold plain
  split <;> rfl

@[simp] theorem plain_isUntouched (e : Entity) : e.plain.isUntouched = e.isUntouched := by
  unfold plain
  split
  · rfl
  · rename_i h
    rw [Bool.not_eq_true, Bool.or_eq_false_iff] at h
    rw [h.1]
    rfl

theorem plain_of_untouched (h : e.isUntouched = true) : e.plain = e := if_pos (by rw [h]; rfl)

@[simp] theorem note_name (touched called : List String) (e : Entity) : (e.note touched called).name = e.name := by
  unfold note
  split <;> rfl

theorem note_of_not_among (h : e.isAmong touched called = false) : e.note touched called = e :=
  if_neg (by simp [h])

theorem note_of_touched (h : e.isUntouched = false) : e.note touched called = e := if_neg (by simp [h])

theorem note_of_among (hu : e.isUntouched = true) (h : e.isAmong touched called = true) :
    e.note touched called = e.withState .used := if_pos (by simp [hu, h])

@[simp] theorem isAmong_nil (e : Entity) : e.isAmong [] [] = false := by simp [isAmong]

theorem isAmong_append : e.isAmong (touched ++ touched') (called ++ called') =
    (e.isAmong touched called || e.isAmong touched' called') := by
  unfold isAmong
  cases e.isFunction <;> simp

@[simp] theorem note_nil (e : Entity) : e.note [] [] = e := note_of_not_among e.isAmong_nil

theorem note_isUntouched (touched called : List String) (e : Entity) :
    (e.note touched called).isUntouched = (e.isUntouched && !e.isAmong touched called) := by
  cases hu : e.isUntouched with
  | false => rw [note_of_touched hu, hu, Bool.false_and]
  | true =>
    cases ha : e.isAmong touched called with
    | true => rw [note_of_among hu ha]; rfl
    | false => rw [note_of_not_among ha, hu]; rfl

theorem plain_note (touched called : List String) (e : Entity) :
    (e.note touched called).plain = e.plain.note touched called := by
  cases hu : e.isUntouched with
  | false => rw [note_of_touched hu, note_of_touched (by rw [plain_isUntouched, hu])]
  | true =>
    rw [plain_of_untouched hu]
    cases ha : e.isAmong touched called with
    | true => rw [note_of_among hu ha]; rfl
    | false => rw [note_of_not_among ha, plain_of_untouched hu]

/-- First some names, then others. -/
theorem note_note (touched called touched' called' : List String) (e : Entity) :
    (e.note touched called).note touched' called' = e.note (touched ++ touched') (called ++ called') := by
  cases hu : e.isUntouched with
  | false => rw [note_of_touched hu, note_of_touched hu, note_of_touched hu]
  | true =>
    cases ha : e.isAmong touched called with
    | true => rw [note_of_among hu ha, note_of_touched rfl, note_of_among hu (by rw [isAmong_append, ha]; rfl)]
    | false => rw [note_of_not_among ha, note, note, isAmong_append, ha, Bool.false_or]

/-- A state is changed.  Only a constant does not end up as touched. -/
theorem plain_withState (hs : state = .assigned ∨ state = .used) (hc : e.isFunction = false → e.isConstant = false)
    (ha : e.isAmong touched called = true) : (e.withState state).plain = (e.note touched called).plain := by
  have hset : (e.withState state).plain = e.withState .used := by
    rcases hs with rfl | rfl <;> rfl
  rw [hset, plain_note]
  cases hu : e.isUntouched with
  | true => rw [plain_of_untouched hu, note_of_among hu ha]
  | false =>
    have hplain : e.plain = e.withState .used := by
      refine if_neg ?_
      cases hf : e.isFunction with
      | true => simp [hu]
      | false => simp [hu, hc hf]
    rw [hplain, note_of_touched rfl]

end Entity

namespace Scope

/-- A scope, however its entities were touched. -/
def plain (s : Scope) : Scope := ⟨s.entities.map Entity.plain⟩

/-- A scope behind some names. -/
def note (touched called : List String) (s : Scope) : Scope := ⟨s.entities.map (Entity.note touched called)⟩

variable {s s' : Scope} {touched called : List String} {x : String} {e : Entity}

@[simp] theorem names_plain (s : Scope) : s.plain.names = s.names := by
  simp [plain, names, Function.comp_def]

@[simp] theorem names_note (touched called : List String) (s : Scope) : (s.note touched called).names = s.names := by
  simp [note, names, Function.comp_def]

@[simp] theorem contains_note (touched called : List String) (s : Scope) (x : String) :
    (s.note touched called).contains x = s.contains x := by
  rw [contains_iff, contains_iff, names_note]

@[simp] theorem note_nil (s : Scope) : s.note [] [] = s := by
  simp [note, funext Entity.note_nil]

theorem plain_note (touched called : List String) (s : Scope) :
    (s.note touched called).plain = s.plain.note touched called := by
  simp [note, plain, Function.comp_def, Entity.plain_note]

theorem note_note (touched called touched' called' : List String) (s : Scope) :
    (s.note touched called).note touched' called' = s.note (touched ++ touched') (called ++ called') := by
  simp [note, Function.comp_def, Entity.note_note]

/-- Nothing among the names that could be touched. -/
theorem note_eq_self (h : ∀ e ∈ s.entities, e.isUntouched = true → e.isAmong touched called = false) :
    s.note touched called = s := by
  have hmap : s.entities.map (Entity.note touched called) = s.entities.map id := by
    refine List.map_congr_left fun e he => ?_
    cases hu : e.isUntouched with
    | true => exact Entity.note_of_not_among (h e he hu)
    | false => exact Entity.note_of_touched hu
  rw [note, hmap, List.map_id]

/-- In a scope without double names, a name means the only entity of that name. -/
theorem lookup_eq_some (hd : s.names.Nodup) (he : e ∈ s.entities) : s.lookup? e.name = some e := by
  cases hl : s.lookup? e.name with
  | none => simpa using List.find?_eq_none.1 hl e he
  | some e' => rw [eq_of_lookup hd hl he rfl]

/-- The state of what a name means is changed.  Of the entities in the scope, only this one is among some names. -/
theorem plain_setState {state : EntityState} (hs : state = .assigned ∨ state = .used) (hd : s.names.Nodup)
    (hx : s.lookup? x = some e) (hc : e.isFunction = false → e.isConstant = false)
    (ha : e.isAmong touched called = true) (hother : ∀ e' : Entity, e'.name ≠ x → e'.isAmong touched called = false) :
    (s.setState x state).plain = (s.note touched called).plain := by
  simp only [plain, setState, note, List.map_map]
  refine congrArg _ (List.map_congr_left fun e' he' => ?_)
  simp only [Function.comp_apply]
  by_cases hx' : e'.name = x
  · rw [if_pos hx', eq_of_lookup hd hx he' hx']
    exact Entity.plain_withState hs hc ha
  · rw [if_neg hx', Entity.note_of_not_among (hother e' hx')]

/-- What a name means cannot be touched. -/
theorem note_fixed (hd : s.names.Nodup) (hother : ∀ e' : Entity, e'.name ≠ x → e'.isAmong touched called = false)
    (hx : ∀ e, s.lookup? x = some e → e.isUntouched = true → e.isAmong touched called = false) :
    s.note touched called = s := by
  refine note_eq_self fun e he hu => ?_
  by_cases hname : e.name = x
  · exact hx e (hname ▸ lookup_eq_some hd he) hu
  · exact hother e hname

end Scope

/-! ### Tables -/

theorem Entity.isAmong_of_ne_touched {e : Entity} {x : String} (h : e.name ≠ x) : e.isAmong [x] [] = false := by
  unfold isAmong
  split <;> simp [h]

theorem Entity.isAmong_of_ne_called {e : Entity} {x : String} (h : e.name ≠ x) : e.isAmong [] [x] = false := by
  unfold isAmong
  split <;> simp [h]

namespace SymbolTable

/-- A table, however its entities were touched. -/
def plain (t : SymbolTable) : SymbolTable := ⟨t.inner.map Scope.plain, t.globals.plain⟩

/-- A table behind some names.  What is set or copied is touched in the scope inside the global one, if it is there;
what is called is touched in the global scope. -/
def note (touched called : List String) (t : SymbolTable) : SymbolTable :=
  ⟨t.inner.map (Scope.note touched []),
    t.globals.note (touched.filter fun x => !t.inner.any (·.contains x)) called⟩

/-- One scope is open inside the global one at most, and names are distinct in each. -/
structure Tidy (t : SymbolTable) : Prop where
  depth : t.localNames.length ≤ 1
  locals : ∀ names ∈ t.localNames, names.Nodup
  globals : t.globals.names.Nodup

variable {t t' : SymbolTable} {touched called : List String} {x : String} {e : Entity}

@[simp] theorem localNames_plain (t : SymbolTable) : t.plain.localNames = t.localNames := by
  simp [plain, localNames, Function.comp_def]

@[simp] theorem localNames_note (touched called : List String) (t : SymbolTable) :
    (t.note touched called).localNames = t.localNames := by
  simp [note, localNames, Function.comp_def]

/-- Whether a table is tidy is a matter of the names in it. -/
theorem Tidy.of_plain (h : t'.Tidy) (heq : t.plain = t'.plain) : t.Tidy := by
  have hlocals : t.localNames = t'.localNames := by rw [← localNames_plain t, heq, localNames_plain]
  have hglobals : t.globals.names = t'.globals.names := by
    rw [← Scope.names_plain, show t.globals.plain = t'.globals.plain from congrArg SymbolTable.globals heq,
      Scope.names_plain]
  exact ⟨hlocals ▸ h.depth, hlocals ▸ h.locals, hglobals ▸ h.globals⟩

theorem Tidy.note (h : t.Tidy) (touched called : List String) : (t.note touched called).Tidy := by
  refine ⟨by simpa using h.depth, by simpa using h.locals, ?_⟩
  rw [SymbolTable.note, Scope.names_note]
  exact h.globals

/-- A tidy table has no scope inside the global one, or a single one. -/
theorem Tidy.cases (h : t.Tidy) : t.inner = [] ∨ ∃ s, t.inner = [s] ∧ s.names.Nodup := by
  obtain ⟨inner, globals⟩ := t
  have hdepth := h.depth
  cases inner with
  | nil => exact .inl rfl
  | cons s outer =>
    cases outer with
    | nil => exact .inr ⟨s, rfl, h.locals s.names List.mem_cons_self⟩
    | cons s' outer => simp [localNames] at hdepth

@[simp] theorem note_nil (t : SymbolTable) : t.note [] [] = t := by
  simp [note, funext Scope.note_nil]

theorem plain_note (touched called : List String) (t : SymbolTable) :
    (t.note touched called).plain = t.plain.note touched called := by
  have hcontains (s : Scope) (x : String) : s.plain.contains x = s.contains x := by
    rw [Scope.contains_iff, Scope.contains_iff, Scope.names_plain]
  simp [note, plain, Function.comp_def, Scope.plain_note, hcontains]

theorem note_note (touched called touched' called' : List String) (t : SymbolTable) :
    (t.note touched called).note touched' called' = t.note (touched ++ touched') (called ++ called') := by
  simp [note, Function.comp_def, Scope.note_note, List.filter_append]

/-- A variable or parameter is set or copied. -/
theorem plain_setState {state : EntityState} (hs : state = .assigned ∨ state = .used) (ht : t.Tidy)
    (hx : t.lookup? x = some e) (hf : e.isFunction = false) (hc : e.isConstant = false) :
    (t.setState x state).plain = (t.note [x] []).plain := by
  have hglobals : t.globals.lookup? x = some e →
      (t.globals.setState x state).plain = (t.globals.note [x] []).plain :=
    fun hl => Scope.plain_setState hs ht.globals hl (fun _ => hc) (by
      simp [Entity.isAmong, hf, (Scope.exists_of_lookup hl).1]) fun _ => Entity.isAmong_of_ne_touched
  obtain ⟨inner, globals⟩ := t
  rcases ht.cases with hinner | ⟨s, hinner, hd⟩
  · obtain rfl : inner = [] := hinner
    simp only [lookup?, List.findSome?_nil] at hx
    simp [setState, setStateIn, setGlobalState, note, plain, hglobals hx]
  · obtain rfl : inner = [s] := hinner
    simp only [lookup?, List.findSome?_cons, List.findSome?_nil] at hx
    cases hl : s.lookup? x with
    | some found =>
      rw [hl] at hx
      cases hx
      have hset : (s.setState x state).plain = (s.note [x] []).plain :=
        Scope.plain_setState hs hd hl (fun _ => hc) (by
          simp [Entity.isAmong, hf, (Scope.exists_of_lookup hl).1]) fun _ => Entity.isAmong_of_ne_touched
      simp [setState_inner hl, note, plain, Scope.contains_eq, hl, hset]
    | none =>
      rw [hl] at hx
      have hsame : s.note [x] [] = s :=
        Scope.note_fixed hd (fun _ => Entity.isAmong_of_ne_touched) fun e he => by rw [hl] at he; cases he
      simp [setState_outer hl, note, plain, Scope.contains_eq, hl, hglobals hx, hsame]

/-- A name that means a function or a constant, or nothing, is neither set nor copied. -/
theorem note_fixed (ht : t.Tidy) (hx : ∀ e, t.lookup? x = some e → e.isFunction = true ∨ e.isConstant = true) :
    t.note [x] [] = t := by
  have hfixed {s : Scope} (hd : s.names.Nodup) (hs : ∀ e, s.lookup? x = some e → t.lookup? x = some e) :
      s.note [x] [] = s := by
    refine Scope.note_fixed hd (fun _ => Entity.isAmong_of_ne_touched) fun e he hu => ?_
    rcases hx e (hs e he) with hf | hc
    · simp [Entity.isAmong, hf]
    · simp only [Entity.isUntouched, Entity.isConstant, beq_iff_eq] at hu hc
      rw [hu] at hc
      cases hc
  obtain ⟨inner, globals⟩ := t
  rcases ht.cases with hinner | ⟨s, hinner, hd⟩
  · obtain rfl : inner = [] := hinner
    have hglobals := @hfixed globals ht.globals fun e he => by simpa [lookup?] using he
    simp [note, hglobals]
  · obtain rfl : inner = [s] := hinner
    have hlocals := hfixed hd fun e he => by simp [lookup?, he]
    cases hl : s.lookup? x with
    | some found => simp [note, hlocals, Scope.contains_eq, hl]
    | none =>
      have hglobals := @hfixed globals ht.globals fun e he => by simpa [lookup?, hl] using he
      simp [note, hlocals, Scope.contains_eq, hl, hglobals]

/-- A function is called. -/
theorem plain_setGlobalState (ht : t.Tidy) (hx : t.lookupGlobal? x = some e) (hf : e.isFunction = true) :
    (t.setGlobalState x .used).plain = (t.note [] [x]).plain := by
  have hset : (t.globals.setState x .used).plain = (t.globals.note [] [x]).plain :=
    Scope.plain_setState (.inr rfl) ht.globals hx (fun hvalue => by rw [hf] at hvalue; cases hvalue) (by
      simp [Entity.isAmong, hf, (Scope.exists_of_lookup hx).1]) fun _ => Entity.isAmong_of_ne_called
  simp [setGlobalState, note, plain, hset, funext Scope.note_nil]

/-- A name that means no function is not called. -/
theorem note_uncalled (ht : t.Tidy) (hx : ∀ e, t.lookupGlobal? x = some e → e.isFunction = false) :
    t.note [] [x] = t := by
  have hglobals : t.globals.note [] [x] = t.globals := by
    refine Scope.note_fixed ht.globals (fun _ => Entity.isAmong_of_ne_called) fun e he _ => ?_
    simp [Entity.isAmong, hx e he]
  simp [note, hglobals, funext Scope.note_nil]

end SymbolTable

/-! ### Checks that touch names -/

/-- What a check leaves behind is the table behind some names, however they were touched. -/
def Check.Notes (p : Check α) (touched called : List String) : Prop :=
  ∀ t : SymbolTable, t.Tidy → (p.run t).state.plain = (t.note touched called).plain

namespace Check.Notes

variable {p : Check α} {f : α → Check β} {touched called touched' called' : List String}

/-- A check that only looks. -/
theorem looks (h : Check.Looks p) : p.Notes [] [] := by
  intro t _
  rw [h t, t.note_nil]

theorem pure (a : α) : Check.Notes (Pure.pure a) [] [] := looks (.pure a)

theorem tidy (h : p.Notes touched called) {t : SymbolTable} (ht : t.Tidy) : (p.run t).state.Tidy :=
  (ht.note touched called).of_plain (h t ht)

theorem bind (hp : p.Notes touched called) (hf : ∀ a, (f a).Notes touched' called') :
    Check.Notes (p >>= f) (touched ++ touched') (called ++ called') := by
  intro t ht
  have hlast := hf (p.run t).value (p.run t).state (hp.tidy ht)
  rw [SymbolTable.plain_note, hp t ht, ← SymbolTable.plain_note, SymbolTable.note_note] at hlast
  exact hlast

/-- Nothing is touched at last. -/
theorem andLast (hp : p.Notes touched called) (hf : ∀ a, (f a).Notes [] []) : Check.Notes (p >>= f) touched called := by
  have h := hp.bind hf
  rwa [List.append_nil, List.append_nil] at h

end Check.Notes

open Check (Looks Notes)

theorem Call.check_notes (c : Call) : c.check.Notes [] [c.name] := by
  intro t ht
  unfold Call.check
  rw [Pass.run_bind, Pass.run_get]
  dsimp only
  have hreported (cause : SemanticCause) (hx : ∀ e, t.lookupGlobal? c.name = some e → e.isFunction = false) :
      ((Check.report cause c.span c.text >>= fun _ => (Pure.pure Yield.unknown : Check Yield)).run t).state.plain =
        (t.note [] [c.name]).plain := by
    rw [SymbolTable.note_uncalled ht hx]
    rfl
  cases hx : t.lookupGlobal? c.name with
  | none => exact hreported _ fun e he => by rw [hx] at he; cases he
  | some e =>
    obtain ⟨name, kind, state, declared⟩ := e
    cases kind with
    | value type =>
      refine hreported _ fun e he => ?_
      rw [hx] at he
      cases he
      rfl
    | function result params =>
      have hargs : Looks (do
          let yields ← c.args.mapM (Argument.check c.text)
          if c.args.length = params.length then
            checkArguments c.name c.text 1 (c.args.zip (yields.zip params))
          return Yield.call result) := by
        refine (Looks.mapM (Argument.check_looks c.text) c.args).bind fun yields => ?_
        split
        · exact (checkArguments_looks _ _ _ _).bind fun _ => .pure _
        · exact .pure _
      rw [← SymbolTable.plain_setGlobalState ht hx rfl]
      dsimp only [Option.map_some]
      rw [Pass.run_bind, Looks.require, Pass.run_bind, Looks.require, Pass.run_bind, Pass.run_modify]
      exact congrArg SymbolTable.plain (hargs _)

theorem Expr.check_notes (e : Expr) : e.check.Notes [] e.callees := by
  induction e with
  | arith op l r s ihl ihr | logic op l r s ihl ihr =>
    rw [Expr.callees, Expr.calls, List.map_append]
    exact ihl.bind fun _ => ihr.andLast fun _ => .looks ((checkOperands_looks _ _ _ _ _ _).bind fun _ => .pure _)
  | paren inner s ih => exact ih
  | call c s => exact c.check_notes
  | fragment f s => exact .looks (f.check_looks s)

theorem Cond.check_notes (c : Cond) : c.check.Notes [] (c.exprs.flatMap Expr.callees) := by
  induction c with
  | comparison op l r s =>
    rw [Cond.exprs, List.flatMap_cons, List.flatMap_singleton]
    exact l.check_notes.bind fun _ => r.check_notes.andLast fun _ => .looks (checkOperands_looks _ _ _ _ _ _)
  | equality op l r s =>
    rw [Cond.exprs, List.flatMap_cons, List.flatMap_singleton]
    exact l.check_notes.bind fun _ => r.check_notes.andLast fun _ => .looks (.require _ _ _ _)
  | neg inner s ih | paren inner s ih => exact ih
  | binary op l r s ihl ihr =>
    rw [Cond.exprs, List.flatMap_append]
    exact ihl.bind fun _ => ihr
  | bool b s => exact .pure ()

/-- A name that stands alone on the right-hand side is copied. -/
theorem markReferenced_notes (value : Expr) : (markReferenced value).Notes value.referencedName?.toList [] := by
  intro t ht
  unfold markReferenced
  cases value.referencedName? with
  | none => exact congrArg SymbolTable.plain t.note_nil.symm
  | some x =>
    rw [Option.toList_some, Pass.run_bind, Pass.run_get]
    dsimp only
    cases hx : t.lookup? x with
    | none => exact congrArg SymbolTable.plain (SymbolTable.note_fixed ht fun e he => by rw [hx] at he; cases he).symm
    | some e =>
      dsimp only
      split
      · rename_i hfixed
        refine congrArg SymbolTable.plain (SymbolTable.note_fixed ht fun e' he => ?_).symm
        cases hx.symm.trans he
        exact Bool.or_eq_true_iff.1 hfixed
      · rename_i hfree
        rw [Bool.not_eq_true, Bool.or_eq_false_iff] at hfree
        exact SymbolTable.plain_setState (.inr rfl) ht hx hfree.1 hfree.2

/-- The target of an assignment is set, whatever is wrong with its value. -/
theorem checkAssignment_notes (target : String) (value : Expr) (span : Span) :
    (checkAssignment target value span).Notes (value.referencedName?.toList ++ [target]) value.callees := by
  rw [← List.append_nil value.callees, ← List.nil_append (_ ++ [target])]
  refine value.check_notes.bind fun found => (markReferenced_notes value).bind fun _ => fun t ht => ?_
  rw [Pass.run_bind, Pass.run_get]
  dsimp only
  have hreported (cause : SemanticCause)
      (hx : ∀ e, t.lookup? target = some e → e.isFunction = true ∨ e.isConstant = true) :
      ((Check.report cause span (assignmentText target value)).run t).state.plain = (t.note [target] []).plain := by
    rw [SymbolTable.note_fixed ht hx]
    rfl
  cases hx : t.lookup? target with
  | none => exact hreported _ fun e he => by rw [hx] at he; cases he
  | some e =>
    have hfixed (h : e.isFunction = true ∨ e.isConstant = true) :
        ∀ e', t.lookup? target = some e' → e'.isFunction = true ∨ e'.isConstant = true := by
      intro e' he'
      cases hx.symm.trans he'
      exact h
    obtain ⟨name, kind, state, declared⟩ := e
    cases kind with
    | function result params => exact hreported _ (hfixed (.inl rfl))
    | value type =>
      dsimp only [Entity.valueType?]
      split
      · rename_i hconst
        exact hreported _ (hfixed (.inr hconst))
      · rename_i hfree
        rw [← SymbolTable.plain_setState (.inl rfl) ht hx rfl (Bool.not_eq_true _ ▸ hfree), Pass.run_bind,
          Looks.require]
        rfl

theorem Stmt.check_notes :
    (∀ s : Stmt, s.check.Notes (s.visits.flatMap Visit.touched) (s.calls.map (·.name))) ∧
      ∀ ss, (Stmt.checkAll ss).Notes ((Stmt.visitsOfList ss).flatMap Visit.touched)
        ((Stmt.callsOfList ss).map (·.name)) := by
  have hcond (c : Cond) : c.exprs.flatMap Expr.callees = (c.exprs.flatMap Expr.calls).map (·.name) := by
    rw [List.map_flatMap]
    rfl
  refine Stmt.parts ?assign ?ite ?loop ?call ?block ?skip ?nil ?cons
  case assign =>
    intro x e a s
    rw [Stmt.check, Stmt.visits, List.flatMap_singleton]
    exact checkAssignment_notes x e a
  case ite =>
    intro c th el s iht ihe
    rw [Stmt.check, Block.check, Block.check, Stmt.visits, Stmt.calls, Block.visits, Block.visits, Block.calls,
      Block.calls, List.map_append, List.map_append, ← hcond]
    have h := c.check_notes.bind fun _ => iht.bind fun _ => ihe
    simpa [Visit.touched] using h
  case loop =>
    intro c b s ih
    rw [Stmt.check, Block.check, Stmt.visits, Stmt.calls, Block.visits, Block.calls, List.map_append, ← hcond]
    exact c.check_notes.bind fun _ => ih
  case call =>
    intro c s
    rw [Stmt.check, Stmt.visits, Stmt.calls]
    exact c.check_notes.andLast fun _ => .pure ()
  case block =>
    intro b s ih
    rw [Stmt.check, Block.check, Stmt.visits, Stmt.calls, Block.visits, Block.calls]
    exact ih
  case skip =>
    intro s
    rw [Stmt.check, Stmt.visits, Stmt.calls]
    exact .pure ()
  case nil =>
    rw [Stmt.checkAll, Stmt.visitsOfList, Stmt.callsOfList]
    exact .pure ()
  case cons =>
    intro s more ihs ihmore
    rw [Stmt.checkAll, Stmt.visitsOfList, Stmt.callsOfList, List.flatMap_append, List.map_append]
    exact ihs.bind fun _ => ihmore

theorem Block.check_notes (b : Block) :
    (Block.check b).Notes ((Block.visits b).flatMap Visit.touched) ((Block.calls b).map (·.name)) := by
  rw [Block.check, Block.visits, Block.calls]
  exact Stmt.check_notes.2 b.nodes

theorem Func.checkReturn_notes (f : Func) :
    f.checkReturn.Notes [] ((f.returnValue.toList.flatMap Expr.calls).map (·.name)) := by
  unfold Func.checkReturn
  cases f.returnValue with
  | some value =>
    rw [Option.toList_some, List.flatMap_singleton]
    exact value.check_notes.andLast fun _ => .looks (.require _ _ _ _)
  | none => exact .looks (.require _ _ _ _)

end ThreeAddress
