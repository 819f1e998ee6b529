import ThreeAddress.Proofs.BoundEntities

/-!
# Variables that are read unassigned

Checking keeps one state for each entity.  The states tell what was met on the way: a variable is just declared as long
as no assignment has touched its binding.  So a read of an unassigned variable is reported where there is one, once,
and nowhere else.

* `SymbolTable.Records` — a table behind some encounters, and what each encounter more does to it;
* `unassigned_iff`, `meansFunction_iff` — what such a table tells;
* `Check.Gives`, `Check.Tells` — what a check leaves behind and reports, and the laws;
* `Expr.check_tells`, `Stmt.check_tells`, `Func.check_gives` — the parts of a program;
* `analyze_reportsUnassigned` — programs.
-/

namespace ThreeAddress

variable {α β : Type}

/-! ### Tables behind encounters -/

/-- A table holds what was met so far. -/
def SymbolTable.Records (t : SymbolTable) (past : List Encounter) : Prop :=
  t.Holds past (bindingsAfter past) (Untouched past)

section Encounters

variable {past es : List Encounter} {e : Encounter} {t : SymbolTable} {x f : String}

/-- Nothing is bound at first. -/
theorem SymbolTable.Records.empty : SymbolTable.empty.Records [] :=
  ⟨fun _ => .none, .global, fun _ h => by cases h⟩

/-- One encounter more; what it touches is touched from then on. -/
theorem SymbolTable.Holds.concat {b : Bindings}
    (h : t.Holds past b fun place => Untouched past place ∧ ¬e.Touches past place) :
    t.Holds (past ++ [e]) b (Untouched (past ++ [e])) :=
  h.imp fun _ _ _ hb => (hb.later [e]).congr fun _ => (untouched_concat past e _).symm

/-- Most encounters touch nothing. -/
theorem SymbolTable.Holds.concat_inert {b : Bindings} (h : t.Holds past b (Untouched past))
    (he : ∀ place, ¬e.Touches past place) : t.Holds (past ++ [e]) b (Untouched (past ++ [e])) :=
  SymbolTable.Holds.concat (h.imp fun _ _ place hb => hb.congr fun _ => by simp [he place])

namespace SymbolTable.Records

theorem reads (h : t.Records past) (span : Span) (hint : String) : t.Records (past ++ [.reads x span hint]) := by
  rw [Records, bindingsAfter_concat]
  exact h.concat_inert fun _ => id

theorem passes (h : t.Records past) (span : Span) (hint : String) : t.Records (past ++ [.passes f x span hint]) := by
  rw [Records, bindingsAfter_concat]
  exact h.concat_inert fun _ => id

theorem opens (h : t.Records past) (hout : t.localNames = []) : t.push.Records (past ++ [.opens]) := by
  rw [Records, bindingsAfter_concat]
  refine (Holds.concat_inert h fun _ => id).push ?_
  have hinner := h.inner
  rw [List.map_eq_nil_iff.1 hout] at hinner
  generalize (bindingsAfter past).locals = locals at hinner
  cases hinner
  rfl

theorem closes (h : t.Records past) {names : List String} (hin : t.localNames = [names]) :
    ∃ s outer, t.pop? = some (s, outer) ∧ outer.Records (past ++ [.closes]) := by
  obtain ⟨scope, hscope⟩ : ∃ scope, (bindingsAfter past).locals = some scope := by
    obtain ⟨s, hs, -⟩ := List.map_eq_singleton_iff.1 hin
    have hinner := h.inner
    rw [hs] at hinner
    generalize (bindingsAfter past).locals = locals at hinner
    cases hinner with
    | @body _ scope => exact ⟨scope, rfl⟩
  obtain ⟨s, outer, hpop, houter⟩ := h.pop hscope
  refine ⟨s, outer, hpop, ?_⟩
  rw [Records, bindingsAfter_concat]
  exact houter.concat_inert fun _ => id

/-- An entity that is bound at the end was not touched before. -/
theorem boundAt {role : Role} {entity : Entity} (hr : role.Binds entity) (past : List Encounter) :
    entity.BoundAt (past ++ [.binds role entity.name]) (Untouched (past ++ [.binds role entity.name])) entity.name
      past.length := by
  refine ⟨role, List.getElem?_concat_length, hr.has, fun hvar => ?_⟩
  have hstate : entity.isUntouched = true := by
    cases hr with
    | var => rfl
    | const | param | func => cases hvar
  exact iff_of_true hstate ((untouched_concat past _ _).2 ⟨untouched_here past, id⟩)

/-- An entity other than a function is declared. -/
theorem binds (h : t.Records past) {role : Role} {entity : Entity} (hr : role.Binds entity) (hf : role ≠ .func) :
    ((t.define entity).toOption.getD t).Records (past ++ [.binds role entity.name]) := by
  obtain ⟨hlocals, hglobals⟩ := bindingsAfter_before past
  rw [Records, bindingsAfter_concat]
  exact (Holds.concat_inert h fun _ => id).define hf (boundAt hr past) hlocals hglobals

/-- A function is declared. -/
theorem binds_func (h : t.Records past) {entity : Entity} (hr : Role.func.Binds entity) :
    ((t.defineGlobal entity).toOption.getD t).Records (past ++ [.binds .func entity.name]) := by
  rw [Records, bindingsAfter_concat]
  exact (Holds.concat_inert h fun _ => id).defineGlobal (boundAt hr past) (bindingsAfter_before past).1

/-- An assignment touches what it copies, and its target. -/
theorem assigns {target : String} {copied : Option String}
    (h : t.Holds past (bindingsAfter past) fun place =>
      (Untouched past place ∧ copied.bind (meant? past) ≠ some place) ∧ meant? past target ≠ some place) :
    t.Records (past ++ [.assigns target copied]) := by
  rw [Records, bindingsAfter_concat]
  refine Holds.concat (h.imp fun _ _ place hb => hb.congr fun _ => ?_)
  rw [Encounter.Touches, not_or, and_assoc, and_comm (a := meant? past target ≠ some place)]

/-- A function is used. -/
theorem used (h : t.Records past) {entity : Entity} (hx : t.lookupGlobal? f = some entity)
    (hf : entity.isFunction = true) : (t.setGlobalState f .used).Records past :=
  Holds.setGlobalState h hx hf .used (.call hf)

end SymbolTable.Records

/-- A name means an unassigned variable if its entity is just declared. -/
theorem unassigned_iff (h : t.Records past) : Unassigned past x ↔
    ∃ entity, t.lookup? x = some entity ∧ entity.isFunction = false ∧ entity.isUntouched = true := by
  constructor
  · rintro ⟨place, hplace, hvar, huntouched⟩
    obtain ⟨entity, hlookup, role, hat, hhas, hstate⟩ := h.of_find hplace
    rw [hvar] at hat
    cases hat
    refine ⟨entity, hlookup, ?_, (hstate rfl).2 huntouched⟩
    rw [← Bool.not_eq_true]
    exact fun hf => absurd (hhas.function.1 hf) (by decide)
  · rintro ⟨entity, hlookup, hf, huntouched⟩
    obtain ⟨place, hplace, role, hat, hhas, hstate⟩ := h.lookup_some hlookup
    obtain rfl : role = .var := by
      have hmem := hhas.state
      rw [beq_iff_eq.1 huntouched] at hmem
      cases role with
      | var => rfl
      | func => rw [hhas.function.2 rfl] at hf; cases hf
      | const | param => exact absurd hmem (by decide)
    exact ⟨place, hplace, hat, (hstate rfl).1 huntouched⟩

/-- A function is in view if a table says so. -/
theorem meansFunction_iff (h : t.Records past) :
    MeansFunction past f ↔ ∃ entity, t.lookupGlobal? f = some entity ∧ entity.isFunction = true := by
  constructor
  · rintro ⟨place, hplace, hfunc⟩
    obtain ⟨entity, hlookup, role, hat, hhas, -⟩ := h.globals.of_lookup hplace
    rw [hfunc] at hat
    cases hat
    exact ⟨entity, hlookup, hhas.function.2 rfl⟩
  · rintro ⟨entity, hlookup, hf⟩
    obtain ⟨place, hplace, role, hat, hhas, -⟩ := h.globals.lookup_some hlookup
    rw [hhas.function.1 hf] at hat
    exact ⟨place, hplace, hat⟩

end Encounters

/-! ### What a check reports -/

/-- Whether a fault is about a variable that is read unassigned. -/
def Fault.isUnassigned (f : Fault) : Bool := f.code == .unassignedVariable

namespace Check

/-- From a table, a check comes to one with some property, and it reports just some faults about unassigned
variables. -/
structure Gives (p : Check α) (t : SymbolTable) (Q : SymbolTable → Prop) (fs : List Fault) : Prop where
  state : Q (p.run t).state
  told : (p.run t).record.filter Fault.isUnassigned = fs

/-- A check reports what there is to say about the encounters that it comes by. -/
def Tells (p : Check α) (es : List Encounter) : Prop :=
  ∀ past t, t.Records past → p.Gives t (·.Records (past ++ es)) (complaints past es)

section Laws

variable {p : Check α} {f : α → Check β} {t : SymbolTable} {Q R : SymbolTable → Prop} {fs gs : List Fault}
  {es es' past : List Encounter} {cause : SemanticCause} {span : Span} {hint : String}

namespace Gives

theorem pure {a : α} (h : Q t) : Gives (Pure.pure a) t Q [] := ⟨h, rfl⟩

theorem bind (hp : p.Gives t Q fs) (hf : ∀ a t', Q t' → (f a).Gives t' R gs) : Gives (p >>= f) t R (fs ++ gs) where
  state := (hf _ _ hp.state).state
  told := by
    rw [Pass.run_bind, List.filter_append, hp.told, (hf _ _ hp.state).told]

/-- Nothing is reported first. -/
theorem andThen (hp : p.Gives t Q []) (hf : ∀ a t', Q t' → (f a).Gives t' R gs) : Gives (p >>= f) t R gs := hp.bind hf

/-- Nothing is reported at last. -/
theorem andLast (hp : p.Gives t Q fs) (hf : ∀ a t', Q t' → (f a).Gives t' R []) : Gives (p >>= f) t R fs := by
  have h := hp.bind hf
  rwa [List.append_nil] at h

theorem get {f : SymbolTable → Check β} (h : (f t).Gives t Q fs) : Gives (Pass.get >>= f) t Q fs :=
  ⟨h.state, h.told⟩

theorem modify {f : SymbolTable → SymbolTable} (h : Q (f t)) : Gives (Pass.modify f) t Q [] := ⟨h, rfl⟩

/-- A fault of another kind. -/
theorem report (h : Q t) (hc : (cause.fault span hint).isUnassigned = false) : (Check.report cause span hint).Gives t Q [] :=
  ⟨h, List.filter_cons_of_neg (Bool.not_eq_true _ ▸ hc)⟩

/-- A fault about an unassigned variable. -/
theorem report_unassigned (h : Q t) (hc : (cause.fault span hint).isUnassigned = true) :
    (Check.report cause span hint).Gives t Q [cause.fault span hint] :=
  ⟨h, List.filter_cons_of_pos hc⟩

theorem require {ok : Bool} (h : Q t) (hc : (cause.fault span hint).isUnassigned = false) :
    (Check.require ok cause span hint).Gives t Q [] := by
  unfold Check.require
  split
  · exact pure h
  · exact report h hc

end Gives

namespace Tells

theorem pure (a : α) : Tells (Pure.pure a : Check α) [] := fun past t h => .pure (by rwa [List.append_nil])

theorem bind (hp : p.Tells es) (hf : ∀ a, (f a).Tells es') : Tells (p >>= f) (es ++ es') := by
  intro past t h
  rw [complaints_append, ← List.append_assoc]
  exact (hp past t h).bind fun a t' ht' => hf a _ t' ht'

/-- Nothing is met at last. -/
theorem andLast (hp : p.Tells es) (hf : ∀ a, (f a).Tells []) : Tells (p >>= f) es := by
  have h := hp.bind hf
  rwa [List.append_nil] at h

/-- Nothing is met first. -/
theorem andThen (hp : p.Tells []) (hf : ∀ a, (f a).Tells es') : Tells (p >>= f) es' := hp.bind hf

theorem require {ok : Bool} (hc : (cause.fault span hint).isUnassigned = false) :
    (Check.require ok cause span hint).Tells [] :=
  fun past t h => .require (by rwa [List.append_nil]) hc

/-- Where nothing is met, nothing is reported. -/
theorem nothing (hp : p.Tells []) (h : t.Records past) : p.Gives t (·.Records past) [] := by
  have hgives := hp past t h
  rwa [List.append_nil] at hgives

theorem forM {f : β → Check Unit} {g : β → List Encounter} (hf : ∀ b, (f b).Tells (g b)) (bs : List β) :
    Tells (bs.forM f) (bs.flatMap g) := by
  induction bs with
  | nil => exact pure ()
  | cons b more ih =>
    rw [List.flatMap_cons]
    exact (hf b).bind fun _ => ih

end Tells

end Laws

end Check

open Check (Gives Tells)

/-! ### Expressions and conditions -/

section Values

variable {past : List Encounter} {t : SymbolTable} {x f : String} {span : Span} {hint : String}

/-- A name in value position. -/
theorem checkName_gives {causes : NameCauses} (h : t.Records past)
    (hundefined : ((causes.undefined x).fault span hint).isUnassigned = false)
    (hfunction : ((causes.function x).fault span hint).isUnassigned = false)
    (hunassigned : ((causes.unassigned x).fault span hint).isUnassigned = true) :
    (checkName causes x span hint).Gives t (·.Records past)
      (if Unassigned past x then [(causes.unassigned x).fault span hint] else []) := by
  unfold checkName
  refine .get ?_
  have hiff : Unassigned past x ↔ _ := unassigned_iff h
  cases hx : t.lookup? x with
  | none =>
    rw [if_neg (by simp [hiff, hx])]
    exact (Gives.report h hundefined).andThen fun _ _ h => .pure h
  | some e =>
    obtain ⟨name, kind, state, declared⟩ := e
    cases kind with
    | function result params =>
      rw [if_neg (by simp [hiff, hx, Entity.isFunction])]
      exact (Gives.report h hfunction).andThen fun _ _ h => .pure h
    | value type =>
      dsimp only [Entity.valueType?]
      cases hstate : Entity.isUntouched ⟨name, .value type, state, declared⟩ with
      | false =>
        rw [if_neg (by simp [hiff, hx, hstate])]
        exact .pure h
      | true =>
        rw [if_pos (by simp [hiff, hx, hstate, Entity.isFunction])]
        exact (Gives.report_unassigned (Q := (·.Records past)) h hunassigned).andLast fun _ _ h => .pure h

/-- A name as an operand. -/
theorem checkName_tells : Tells (checkName .ofOperand x span hint) [.reads x span hint] := by
  intro past t h
  obtain ⟨hstate, htold⟩ : (checkName .ofOperand x span hint).Gives t _ _ := checkName_gives h rfl rfl rfl
  exact ⟨hstate.reads span hint, htold.trans (List.append_nil _).symm⟩

/-- Passing a name binds no function. -/
theorem meansFunction_passes (past : List Encounter) (f : String) (hint : String) (a : Argument) :
    MeansFunction (past ++ a.encounters f hint) f ↔ MeansFunction past f := by
  obtain ⟨atom, span⟩ := a
  cases atom with
  | number n => exact (congrArg (MeansFunction · f) (List.append_nil past)).to_iff
  | name x =>
    refine exists_congr fun place => ?_
    rw [Argument.encounters, bindingsAfter_concat]
    refine and_congr_right fun hplace => ?_
    rw [List.getElem?_append_left ((bindingsAfter_before past).2 f place hplace)]

theorem Argument.check_gives (hf : MeansFunction past f) (h : t.Records past) (a : Argument) :
    (a.check hint).Gives t (·.Records (past ++ a.encounters f hint)) (complaints past (a.encounters f hint)) := by
  obtain ⟨atom, span⟩ := a
  cases atom with
  | number n => exact .pure (by rwa [Argument.encounters, List.append_nil])
  | name x =>
    obtain ⟨hstate, htold⟩ : (checkName .ofArgument x span hint).Gives t _ _ := checkName_gives h rfl rfl rfl
    refine ⟨hstate.passes span hint, htold.trans ?_⟩
    rw [Argument.encounters, complaints, complaints, List.append_nil]
    exact if_congr (iff_and_self.2 fun _ => hf) rfl rfl

/-- The arguments of a function that is in view. -/
theorem arguments_give (args : List Argument) (hf : MeansFunction past f) (h : t.Records past) :
    Gives (args.mapM (Argument.check hint)) t (·.Records (past ++ args.flatMap (Argument.encounters f hint)))
      (complaints past (args.flatMap (Argument.encounters f hint))) := by
  induction args generalizing past t with
  | nil => exact .pure (by rwa [List.flatMap_nil, List.append_nil])
  | cons a more ih =>
    rw [List.mapM_cons, List.flatMap_cons, complaints_append, ← List.append_assoc]
    refine (a.check_gives hf h).bind fun y t' h' => ?_
    exact (ih ((meansFunction_passes past f hint a).2 hf) h').andLast fun _ _ h => .pure h

/-- The arguments of anything else are not looked at. -/
theorem arguments_unseen (hint : String) (args : List Argument) (hf : ¬MeansFunction past f) (h : t.Records past) :
    t.Records (past ++ args.flatMap (Argument.encounters f hint)) ∧
      complaints past (args.flatMap (Argument.encounters f hint)) = [] := by
  induction args generalizing past with
  | nil => exact ⟨by rwa [List.flatMap_nil, List.append_nil], rfl⟩
  | cons a more ih =>
    have hpasses : t.Records (past ++ a.encounters f hint) ∧ complaints past (a.encounters f hint) = [] := by
      obtain ⟨atom, span⟩ := a
      cases atom with
      | number n => exact ⟨by rwa [Argument.encounters, List.append_nil], rfl⟩
      | name x =>
        refine ⟨h.passes span hint, ?_⟩
        rw [Argument.encounters, complaints, complaints, List.append_nil]
        exact if_neg fun hreads => hf hreads.1
    obtain ⟨hrecords, hnone⟩ := ih (fun hmeans => hf ((meansFunction_passes past f hint a).1 hmeans)) hpasses.1
    rw [List.flatMap_cons, complaints_append, ← List.append_assoc, hpasses.2, hnone]
    exact ⟨hrecords, rfl⟩

/-- The types of arguments. -/
theorem checkArguments_tells (function hint : String) (position : Nat) (as : List (Argument × Yield × Ty)) :
    Tells (checkArguments function hint position as) [] := by
  induction as generalizing position with
  | nil => exact .pure ()
  | cons a more ih => exact (Tells.require rfl).andThen fun _ => ih _

theorem Call.check_tells (c : Call) : c.check.Tells c.encounters := by
  intro past t h
  unfold Call.check Call.encounters
  refine .get ?_
  have hiff := meansFunction_iff (f := c.name) h
  cases hx : t.lookupGlobal? c.name with
  | none =>
    have hunseen : ¬MeansFunction past c.name := by simp [hiff, hx]
    obtain ⟨hrecords, hnone⟩ := arguments_unseen c.text c.args hunseen h
    rw [hnone]
    exact (Gives.report (Q := (·.Records _)) hrecords rfl).andThen fun _ _ h => .pure h
  | some e =>
    obtain ⟨name, kind, state, declared⟩ := e
    cases kind with
    | value type =>
      have hunseen : ¬MeansFunction past c.name := by simp [hiff, hx, Entity.isFunction]
      obtain ⟨hrecords, hnone⟩ := arguments_unseen c.text c.args hunseen h
      rw [hnone]
      exact (Gives.report (Q := (·.Records _)) hrecords rfl).andThen fun _ _ h => .pure h
    | function result params =>
      have hmeans : MeansFunction past c.name := hiff.2 ⟨_, hx, rfl⟩
      dsimp only [Option.map_some]
      refine (Gives.require (Q := (· = t)) rfl rfl).andThen fun _ t' h' => ?_
      subst h'
      refine (Gives.require (Q := (· = t')) rfl rfl).andThen fun _ t h' => ?_
      subst h'
      refine (Gives.modify (Q := (·.Records past)) (h.used hx rfl)).andThen fun _ t' h' => ?_
      refine (arguments_give c.args hmeans h').andLast fun yields t' h' => ?_
      split
      · exact ((checkArguments_tells c.name c.text 1 _).nothing h').andThen fun _ _ h => .pure h
      · exact .pure h'

/-- A sign in front of a name. -/
theorem checkSigned_tells (cause : Yield → SemanticCause) (expected : Ty)
    (hc : ∀ y, ((cause y).fault span hint).isUnassigned = false) :
    Tells (checkSigned cause expected x span hint) [.reads x span hint] := by
  refine checkName_tells.andLast fun y => ?_
  cases y with
  | unknown => exact .pure _
  | value | call => exact (Tells.require (hc _)).andThen fun _ => .pure _

theorem Fragment.check_tells (fr : Fragment) (span : Span) : (fr.check span).Tells (fr.encounters span) := by
  cases fr with
  | atom negated atom =>
    cases atom with
    | number n => cases negated <;> exact .pure _
    | name x =>
      cases negated with
      | false => exact checkName_tells
      | true => exact checkSigned_tells _ _ fun _ => rfl
  | not x => exact checkSigned_tells _ _ fun _ => rfl
  | zero | bool => exact .pure _

theorem checkOperands_tells {cause : Yield → SemanticCause} (hc : ∀ y, ((cause y).fault span hint).isUnassigned = false)
    (expected : Ty) (l r : Yield) : (checkOperands cause expected l r span hint).Tells [] :=
  (Tells.require (hc l)).andThen fun _ => .require (hc r)

theorem Expr.check_tells (e : Expr) : e.check.Tells e.encounters := by
  induction e with
  | arith op l r s ihl ihr | logic op l r s ihl ihr =>
    exact ihl.bind fun _ => ihr.andLast fun _ => (checkOperands_tells (fun _ => rfl) _ _ _).andThen fun _ => .pure _
  | paren inner s ih => exact ih
  | call c s => exact c.check_tells
  | fragment fr s => exact fr.check_tells s

theorem Cond.check_tells (c : Cond) : c.check.Tells c.encounters := by
  induction c with
  | comparison op l r s =>
    exact l.check_tells.bind fun _ => r.check_tells.andLast fun _ => checkOperands_tells (fun _ => rfl) _ _ _
  | equality op l r s => exact l.check_tells.bind fun _ => r.check_tells.andLast fun _ => .require rfl
  | neg inner s ih | paren inner s ih => exact ih
  | binary op l r s ihl ihr => exact ihl.bind fun _ => ihr
  | bool b s => exact .pure ()

end Values

/-! ### Statements -/

section Statements

variable {past : List Encounter} {t : SymbolTable}

/-- What is copied is touched. -/
theorem markReferenced_gives (h : t.Records past) (value : Expr) :
    (markReferenced value).Gives t (·.Holds past (bindingsAfter past) fun place =>
      Untouched past place ∧ value.referencedName?.bind (meant? past) ≠ some place) [] := by
  unfold markReferenced
  cases value.referencedName? with
  | none => exact .pure (SymbolTable.Holds.imp h fun _ _ _ hb => hb.congr fun _ => by simp)
  | some x =>
    refine .get ?_
    cases hx : t.lookup? x with
    | none => exact .pure (SymbolTable.Holds.leave h fun e he => by rw [hx] at he; cases he)
    | some e =>
      dsimp only
      split
      · rename_i hfixed
        refine .pure (SymbolTable.Holds.leave h fun e' he => ?_)
        cases hx.symm.trans he
        exact Bool.or_eq_true_iff.1 hfixed
      · rename_i hfree
        rw [Bool.not_eq_true, Bool.or_eq_false_iff] at hfree
        exact .modify (SymbolTable.Holds.setState h hx (.use hfree.1 hfree.2))

theorem checkAssignment_tells (target : String) (value : Expr) (span : Span) :
    (checkAssignment target value span).Tells (value.encounters ++ [.assigns target value.referencedName?]) := by
  refine value.check_tells.bind fun found past t h => ?_
  refine (markReferenced_gives h value).andThen fun _ t h => .get ?_
  have hleave (hfixed : ∀ e, t.lookup? target = some e → e.isFunction = true ∨ e.isConstant = true) :
      t.Records (past ++ [.assigns target value.referencedName?]) := SymbolTable.Records.assigns (h.leave hfixed)
  cases hx : t.lookup? target with
  | none => exact .report (hleave (by simp [hx])) rfl
  | some e =>
    obtain ⟨name, kind, state, declared⟩ := e
    cases kind with
    | function result params => exact .report (hleave (by simp [hx, Entity.isFunction])) rfl
    | value type =>
      dsimp only [Entity.valueType?]
      split
      · rename_i hconst
        exact .report (hleave (by simp [hx, hconst])) rfl
      · rename_i hfree
        refine (Gives.require (Q := (· = t)) rfl rfl).andThen fun _ t' h' => ?_
        subst h'
        exact .modify (SymbolTable.Records.assigns (h.setState hx (.assign rfl (Bool.not_eq_true _ ▸ hfree))))

theorem Stmt.check_tells :
    (∀ s : Stmt, s.check.Tells s.encounters) ∧ ∀ ss, (Stmt.checkAll ss).Tells (Stmt.encountersOfList ss) := by
  refine Stmt.parts ?assign ?ite ?loop ?call ?block ?skip ?nil ?cons
  case assign =>
    intro x e a s
    rw [Stmt.check, Stmt.encounters]
    exact checkAssignment_tells x e a
  case ite =>
    intro c th el s iht ihe
    rw [Stmt.check, Block.check, Block.check, Stmt.encounters, Block.encounters, Block.encounters]
    exact c.check_tells.bind fun _ => iht.bind fun _ => ihe
  case loop =>
    intro c b s ih
    rw [Stmt.check, Block.check, Stmt.encounters, Block.encounters]
    exact c.check_tells.bind fun _ => ih
  case call =>
    intro c s
    rw [Stmt.check, Stmt.encounters]
    exact c.check_tells.andLast fun _ => .pure ()
  case block =>
    intro b s ih
    rw [Stmt.check, Block.check, Stmt.encounters, Block.encounters]
    exact ih
  case skip =>
    intro s
    rw [Stmt.check, Stmt.encounters]
    exact .pure ()
  case nil =>
    rw [Stmt.checkAll, Stmt.encountersOfList]
    exact .pure ()
  case cons =>
    intro s more ihs ihmore
    rw [Stmt.checkAll, Stmt.encountersOfList]
    exact ihs.bind fun _ => ihmore

theorem Block.check_tells (b : Block) : (Block.check b).Tells (Block.encounters b) := by
  rw [Block.check, Block.encounters]
  exact Stmt.check_tells.2 b.nodes

end Statements

/-! ### Declarations -/

/-- A name is bound, unless it is taken. -/
theorem bindEntity_tells {define : SymbolTable → Except Entity SymbolTable} {e : Encounter}
    (hdefine : ∀ past t, t.Records past → ((define t).toOption.getD t).Records (past ++ [e])) (he : e.fault? = none)
    {cause : Entity → SemanticCause} {span : Span} {since : String}
    (hc : ∀ old hint, ((cause old).fault span hint).isUnassigned = false) :
    (bindEntity define cause span since).Tells [e] := by
  intro past t h
  have hnone : complaints past [e] = [] := by
    rw [complaints, complaints, List.append_nil, Encounter.complaint, he]
    exact ite_self _
  rw [hnone]
  refine .get ?_
  have hnext := hdefine past t h
  cases hd : define t with
  | ok t' =>
    rw [hd] at hnext
    exact .modify hnext
  | error old =>
    rw [hd] at hnext
    exact .report hnext (hc _ _)

theorem bindLocal_tells {role : Role} {e : Entity} (hr : role.Binds e) (hf : role ≠ .func) :
    (bindLocal e).Tells [.binds role e.name] :=
  bindEntity_tells (fun _ _ h => h.binds hr hf) rfl fun _ _ => rfl

theorem checkReserved_tells (x : String) (span : Span) : (checkReserved x span).Tells [] := .require rfl

theorem Decl.check_tells (d : Decl) : d.check.Tells d.encounters := by
  cases d with
  | var x type span =>
    exact (checkReserved_tells x span).andThen fun _ => bindLocal_tells .var (by decide)
  | const x type value span =>
    refine value.check_tells.bind fun _ => (checkReserved_tells x span).andThen fun _ => ?_
    exact (bindLocal_tells .const (by decide)).andLast fun _ => .require rfl

theorem Param.check_tells (function : String) (p : Param) : (p.check function).Tells [.binds .param p.name] :=
  (checkReserved_tells p.name p.span).andThen fun _ =>
    bindEntity_tells (fun _ _ h => h.binds .param (by decide)) rfl fun _ _ => rfl

theorem Func.checkReturn_tells (f : Func) : f.checkReturn.Tells (f.returnValue.toList.flatMap Expr.encounters) := by
  unfold Func.checkReturn
  cases f.returnValue with
  | some value =>
    rw [Option.toList_some, List.flatMap_singleton]
    exact value.check_tells.andLast fun _ => .require rfl
  | none => exact .require rfl

theorem Func.register_tells (f : Func) : f.register.Tells [.binds .func f.name] :=
  (checkReserved_tells f.name f.span).andThen fun _ =>
    bindEntity_tells (fun _ _ h => h.binds_func .func) rfl fun old _ => by split <;> rfl

/-! ### Functions and programs -/

section Bodies

variable {past : List Encounter} {t : SymbolTable}

/-- A body, in a scope of its own. -/
theorem inScope_gives {body : Check Unit} {es : List Encounter} (hbody : body.Tells es) {names : List String}
    (hnames : (body.run t.push).state.localNames = [names]) (h : t.Records past) (hout : t.localNames = []) :
    (inScope body).Gives t (·.Records (past ++ ([.opens] ++ es ++ [.closes])))
      (complaints past ([.opens] ++ es ++ [.closes])) := by
  have hwithin := hbody _ _ (h.opens hout)
  have htold : complaints past ([.opens] ++ es ++ [.closes]) = complaints (past ++ [.opens]) es := by
    rw [complaints_append, complaints_append]
    exact List.append_nil _
  obtain ⟨s, outer, hpop, houter⟩ := hwithin.state.closes hnames
  rw [List.append_assoc, List.append_assoc] at houter
  rw [htold, List.append_assoc]
  refine Gives.andThen (Q := (· = t.push)) (.modify rfl) fun _ t' ht' => ?_
  subst ht'
  refine Gives.andLast (Q := (· = (body.run t.push).state)) ⟨rfl, hwithin.told⟩ fun _ t' ht' => .get ?_
  subst ht'
  rw [hpop]
  exact Gives.andThen (Q := (· = outer)) (.modify rfl) fun _ t' ht' => .pure (ht' ▸ houter)

theorem Func.check_gives (f : Func) (h : t.Records past) (hout : t.localNames = []) :
    f.check.Gives t (·.Records (past ++ f.encounters)) (complaints past f.encounters) := by
  have hregistered : (f.register.run t).state.localNames = [] := (f.register_keepsLocals t).trans hout
  obtain ⟨-, hdeclared⟩ := f.asBody.checked_localNames f.name 1 hregistered
  have hkeeps : Check.KeepsLocals (do Block.check f.body; f.checkReturn) := by
    rw [Block.check]
    exact (Stmt.check_keepsLocals.2 f.body.nodes).bind fun _ => f.checkReturn_keepsLocals
  have hbody := (Tells.forM (Param.check_tells f.name) f.params).bind fun _ =>
    (Tells.forM Decl.check_tells f.decls).bind fun _ => (Block.check_tells f.body).bind fun _ => f.checkReturn_tells
  rw [← List.map_eq_flatMap] at hbody
  have hbinds := f.register_tells past t h
  rw [Func.encounters, complaints_append, ← List.append_assoc]
  refine Gives.bind (Q := (· = (f.register.run t).state)) ⟨rfl, hbinds.told⟩ fun _ t' ht' => ?_
  subst ht'
  exact inScope_gives hbody ((hkeeps _).trans hdeclared) hbinds.state hregistered

theorem Func.checkAll_give (fs : List Func) (h : t.Records past) (hout : t.localNames = []) :
    (fs.mapM Func.check).Gives t (·.Records (past ++ fs.flatMap Func.encounters))
      (complaints past (fs.flatMap Func.encounters)) := by
  induction fs generalizing past t with
  | nil => exact .pure (by rwa [List.flatMap_nil, List.append_nil])
  | cons f more ih =>
    have hf := f.check_gives h hout
    rw [List.mapM_cons, List.flatMap_cons, complaints_append, ← List.append_assoc]
    refine Gives.bind (Q := (· = (f.check.run t).state)) ⟨rfl, hf.told⟩ fun _ t' ht' => ?_
    subst ht'
    exact (ih hf.state (f.check_localNames hout)).andLast fun _ _ h => .pure h

end Bodies

theorem Program.check_gives (p : Program) :
    p.check.Gives .empty (fun _ => True) (complaints [] p.encounters) := by
  have hdecls := Tells.forM Decl.check_tells p.decls [] .empty .empty
  have hglobal : ((p.decls.forM Decl.check).run .empty).state.localNames = [] := Decl.checkAll_global rfl
  have hfuncs := Func.checkAll_give p.funcs hdecls.state hglobal
  have hout : ((p.funcs.mapM Func.check).run ((p.decls.forM Decl.check).run .empty).state).state.localNames = [] :=
    Func.checkAll_localNames hglobal
  obtain ⟨-, hdeclared⟩ := p.mainBody.checked_localNames "main" 1 hout
  have hmain := (Tells.forM Decl.check_tells p.main.decls).bind fun _ => Block.check_tells p.main.body
  have hkeeps : Check.KeepsLocals (Block.check p.main.body) := by
    rw [Block.check]
    exact Stmt.check_keepsLocals.2 p.main.body.nodes
  have hscope := inScope_gives hmain ((hkeeps _).trans hdeclared) hfuncs.state hout
  rw [Program.encounters, complaints_append, complaints_append]
  refine Gives.bind (Q := (· = ((p.decls.forM Decl.check).run .empty).state)) ⟨rfl, hdecls.told⟩ fun _ t ht => ?_
  subst ht
  refine Gives.bind (Q := (· = ((p.funcs.mapM Func.check).run ((p.decls.forM Decl.check).run .empty).state).state))
    ⟨rfl, hfuncs.told⟩ fun _ t ht => ?_
  subst ht
  refine Gives.andLast (Q := fun _ => True) ⟨trivial, hscope.told⟩ fun _ t _ => .get (.pure trivial)

/-- **Programs.**  The faults about unassigned variables are, in order, one for each name that is read, or passed to a
function in view, while it means a variable that no assignment has touched. -/
theorem analyze_reportsUnassigned (p : Program) :
    p.analyze.faults.filter (·.code == .unassignedVariable) =
      p.encounters.zipIdx.flatMap fun e => e.1.complaint (p.encounters.take e.2) :=
  p.check_gives.told.trans (complaints_eq [] p.encounters)

-- The function reads the global variable, and the first assignment the local one.
example : (Program.ofSource
    "var x: integer; integer f() \x7b return (x); \x7d main \x7b var x: integer; x = x; x = x + 1; \x7d").toOption.map
      (fun p => (p.encounters.zipIdx.flatMap fun e => e.1.complaint (p.encounters.take e.2)).map (·.span.start)) =
    some [38, 71] := by decide +kernel

end ThreeAddress
