import ThreeAddress.Checking.Program
import ThreeAddress.Proofs.AlikeTrees

/-!
# Checking carries spans along

Checking looks at a span only to place a fault, and to say in a hint where a name was declared before.  In trees
that differ in their spans it finds the same, at corresponding places.

* `Entity.Alike`, `SymbolTable.Alike` — tables of the same entities, declared at corresponding places;
* `SemanticCause.Alike`, `Warning.Alike`, `Findings.Alike` — findings of the same cause;
* `Check.Alike` — passes that find the same and yield corresponding values, and its laws;
* `Expr.check_alike`, `Stmt.check_alike`, `Func.check_alike` — the parts of a program;
* `Program.analyze_alike` — programs.
-/

namespace ThreeAddress

variable {R : Span → Span → Prop} {α β γ : Type}

/-! ### Tables -/

/-- The same entity, declared at corresponding places. -/
structure Entity.Alike (R : Span → Span → Prop) (e e' : Entity) : Prop where
  name : e.name = e'.name
  kind : e.kind = e'.kind
  state : e.state = e'.state
  span : R e.span e'.span

/-- Scopes of the same entities. -/
structure Scope.Alike (R : Span → Span → Prop) (s s' : Scope) : Prop where
  entities : List.Forall₂ (Entity.Alike R) s.entities s'.entities

/-- Tables of the same entities. -/
structure SymbolTable.Alike (R : Span → Span → Prop) (t t' : SymbolTable) : Prop where
  inner : List.Forall₂ (Scope.Alike R) t.inner t'.inner
  globals : t.globals.Alike R t'.globals

namespace Entity.Alike

variable {e e' : Entity}

theorem valueType (h : e.Alike R e') : e.valueType? = e'.valueType? := by rw [valueType?, valueType?, h.kind]

theorem isFunction (h : e.Alike R e') : e.isFunction = e'.isFunction := by
  rw [Entity.isFunction, Entity.isFunction, h.kind]

theorem isConstant (h : e.Alike R e') : e.isConstant = e'.isConstant := by
  rw [Entity.isConstant, Entity.isConstant, h.state]

theorem isUntouched (h : e.Alike R e') : e.isUntouched = e'.isUntouched := by
  rw [Entity.isUntouched, Entity.isUntouched, h.state]

theorem withState (h : e.Alike R e') (state : EntityState) : (e.withState state).Alike R (e'.withState state) :=
  ⟨h.name, h.kind, rfl, h.span⟩

end Entity.Alike

namespace Scope.Alike

variable {s s' : Scope}

theorem empty : Scope.empty.Alike R .empty := ⟨.nil⟩

theorem lookup (h : s.Alike R s') (x : String) : Option.Rel (Entity.Alike R) (s.lookup? x) (s'.lookup? x) := by
  obtain ⟨es⟩ := s
  obtain ⟨es'⟩ := s'
  have hes : List.Forall₂ (Entity.Alike R) es es' := h.entities
  show Option.Rel _ (es.find? _) (es'.find? _)
  clear h
  induction hes with
  | nil => exact .none
  | cons he _ ih =>
    rw [List.find?_cons, List.find?_cons, he.name]
    split
    · exact .some he
    · exact ih

theorem contains (h : s.Alike R s') (x : String) : s.contains x = s'.contains x := by
  obtain ⟨es⟩ := s
  obtain ⟨es'⟩ := s'
  have hes : List.Forall₂ (Entity.Alike R) es es' := h.entities
  show es.any _ = es'.any _
  clear h
  induction hes with
  | nil => rfl
  | cons he _ ih => rw [List.any_cons, List.any_cons, he.name, ih]

theorem define (h : s.Alike R s') {e e' : Entity} (he : e.Alike R e') :
    Except.Rel (Entity.Alike R) (Scope.Alike R) (s.define e) (s'.define e') := by
  have hlookup := h.lookup e'.name
  unfold Scope.define
  rw [he.name]
  generalize s.lookup? e'.name = o at hlookup
  generalize s'.lookup? e'.name = o' at hlookup
  cases hlookup with
  | none => exact .ok ⟨List.rel_append h.entities (.cons he .nil)⟩
  | some hexisting => exact .error hexisting

theorem setState (h : s.Alike R s') (x : String) (state : EntityState) :
    (s.setState x state).Alike R (s'.setState x state) := by
  obtain ⟨es⟩ := s
  obtain ⟨es'⟩ := s'
  have hes : List.Forall₂ (Entity.Alike R) es es' := h.entities
  constructor
  show List.Forall₂ _ (es.map _) (es'.map _)
  clear h
  induction hes with
  | nil => exact .nil
  | cons he _ ih =>
    rw [List.map_cons, List.map_cons, he.name]
    refine .cons ?_ ih
    split
    · exact he.withState state
    · exact he

end Scope.Alike

namespace SymbolTable.Alike

variable {t t' : SymbolTable}

theorem empty : SymbolTable.empty.Alike R .empty := ⟨.nil, .empty⟩

theorem push (h : t.Alike R t') : t.push.Alike R t'.push := ⟨.cons .empty h.inner, h.globals⟩

theorem lookupGlobal (h : t.Alike R t') (x : String) :
    Option.Rel (Entity.Alike R) (t.lookupGlobal? x) (t'.lookupGlobal? x) := h.globals.lookup x

theorem lookupInner {ss ss' : List Scope} (h : List.Forall₂ (Scope.Alike R) ss ss') (x : String) :
    Option.Rel (Entity.Alike R) (ss.findSome? (·.lookup? x)) (ss'.findSome? (·.lookup? x)) := by
  induction h with
  | nil => exact .none
  | @cons s s' _ _ hs _ ih =>
    have hlookup := hs.lookup x
    rw [List.findSome?_cons, List.findSome?_cons]
    generalize s.lookup? x = o at hlookup
    generalize s'.lookup? x = o' at hlookup
    cases hlookup with
    | none => exact ih
    | some he => exact .some he

theorem lookup (h : t.Alike R t') (x : String) : Option.Rel (Entity.Alike R) (t.lookup? x) (t'.lookup? x) := by
  have hinner := lookupInner h.inner x
  unfold SymbolTable.lookup?
  generalize t.inner.findSome? _ = o at hinner ⊢
  generalize t'.inner.findSome? _ = o' at hinner ⊢
  cases hinner with
  | none => exact h.globals.lookup x
  | some he => exact .some he

theorem defineGlobal (h : t.Alike R t') {e e' : Entity} (he : e.Alike R e') :
    Except.Rel (Entity.Alike R) (SymbolTable.Alike R) (t.defineGlobal e) (t'.defineGlobal e') := by
  have hdefine := h.globals.define he
  unfold SymbolTable.defineGlobal
  generalize t.globals.define e = o at hdefine
  generalize t'.globals.define e' = o' at hdefine
  cases hdefine with
  | ok hs => exact .ok ⟨h.inner, hs⟩
  | error hexisting => exact .error hexisting

theorem define (h : t.Alike R t') {e e' : Entity} (he : e.Alike R e') :
    Except.Rel (Entity.Alike R) (SymbolTable.Alike R) (t.define e) (t'.define e') := by
  obtain ⟨inner, globals⟩ := t
  obtain ⟨inner', globals'⟩ := t'
  cases h.inner with
  | nil => exact h.defineGlobal he
  | @cons s s' outer outer' hs houter =>
    have hdefine := hs.define he
    show Except.Rel _ _ ((s.define e).map _) ((s'.define e').map _)
    generalize s.define e = o at hdefine
    generalize s'.define e' = o' at hdefine
    cases hdefine with
    | ok hs => exact .ok ⟨.cons hs houter, h.globals⟩
    | error hexisting => exact .error hexisting

theorem setGlobalState (h : t.Alike R t') (x : String) (state : EntityState) :
    (t.setGlobalState x state).Alike R (t'.setGlobalState x state) := ⟨h.inner, h.globals.setState x state⟩

theorem setStateIn {ss ss' : List Scope} (h : List.Forall₂ (Scope.Alike R) ss ss') (x : String)
    (state : EntityState) :
    Option.Rel (List.Forall₂ (Scope.Alike R)) (SymbolTable.setStateIn x state ss)
      (SymbolTable.setStateIn x state ss') := by
  induction h with
  | nil => exact .none
  | cons hs hmore ih =>
    rw [SymbolTable.setStateIn, SymbolTable.setStateIn, hs.contains]
    split
    · exact .some (.cons (hs.setState x state) hmore)
    · generalize SymbolTable.setStateIn x state _ = o at ih ⊢
      generalize SymbolTable.setStateIn x state _ = o' at ih ⊢
      cases ih with
      | none => exact .none
      | some hss => exact .some (.cons hs hss)

theorem setState (h : t.Alike R t') (x : String) (state : EntityState) :
    (t.setState x state).Alike R (t'.setState x state) := by
  have hinner := setStateIn h.inner x state
  unfold SymbolTable.setState
  generalize SymbolTable.setStateIn x state t.inner = o at hinner
  generalize SymbolTable.setStateIn x state t'.inner = o' at hinner
  cases hinner with
  | none => exact h.setGlobalState x state
  | some hss => exact ⟨hss, h.globals⟩

end SymbolTable.Alike

/-! ### Findings -/

/-- What hints say before the position of an earlier declaration. -/
def positionHints : List String := ["Previously declared at position ", "Previously defined at position "]

/-- Hints that say the same, but for positions of earlier declarations. -/
inductive HintAlike : String → String → Prop
  | same (hint : String) : HintAlike hint hint
  | position {since : String} (h : since ∈ positionHints) (n n' : Nat) :
      HintAlike (since ++ toString n) (since ++ toString n')

/-- Faults of the same cause. -/
inductive SemanticCause.Alike (R : Span → Span → Prop) : Fault → Fault → Prop
  | fault (cause : SemanticCause) {s s' : Span} {hint hint' : String} (hs : R s s') (hh : HintAlike hint hint') :
      Alike R (cause.fault s hint) (cause.fault s' hint')

/-- The same warning at corresponding places. -/
structure Warning.Alike (R : Span → Span → Prop) (w w' : Warning) : Prop where
  code : w.code = w'.code
  message : w.message = w'.message
  span : R w.span w'.span

/-- The same findings at corresponding places. -/
structure Findings.Alike (R : Span → Span → Prop) (f f' : Findings) : Prop where
  faults : List.Forall₂ (SemanticCause.Alike R) f.faults f'.faults
  warnings : List.Forall₂ (Warning.Alike R) f.warnings f'.warnings

theorem Entity.Alike.warning {e e' : Entity} (h : e.Alike R e') : e.warning.Alike R e'.warning := by
  unfold Entity.warning
  rw [h.isFunction, h.name]
  split
  · exact ⟨rfl, rfl, h.span⟩
  · exact ⟨rfl, rfl, h.span⟩

theorem Scope.Alike.warnings {s s' : Scope} (h : s.Alike R s') :
    List.Forall₂ (Warning.Alike R) s.warnings s'.warnings := by
  obtain ⟨es⟩ := s
  obtain ⟨es'⟩ := s'
  have hes : List.Forall₂ (Entity.Alike R) es es' := h.entities
  show List.Forall₂ _ ((es.filter _).map _) ((es'.filter _).map _)
  clear h
  induction hes with
  | nil => exact .nil
  | cons he _ ih =>
    rw [List.filter_cons, List.filter_cons, he.isUntouched]
    split
    · exact .cons he.warning ih
    · exact ih

/-! ### Passes -/

/-- What two passes come to corresponds, and they have found the same. -/
structure Passed.CheckedAlike (R : Span → Span → Prop) (V : α → α → Prop)
    (r r' : Passed SymbolTable Fault α) : Prop where
  value : V r.value r'.value
  state : r.state.Alike R r'.state
  record : List.Forall₂ (SemanticCause.Alike R) r.record r'.record

/-- From tables of the same entities, two passes find the same. -/
def Check.Alike (R : Span → Span → Prop) (V : α → α → Prop) (p p' : Check α) : Prop :=
  ∀ t t', t.Alike R t' → (p.run t).CheckedAlike R V (p'.run t')

/-- Two passes yield the same, too. -/
abbrev Check.Same (R : Span → Span → Prop) (p p' : Check α) : Prop := Check.Alike R (· = ·) p p'

namespace Check.Alike

variable {V : α → α → Prop} {W : β → β → Prop}

theorem pure {a a' : α} (h : V a a') : Check.Alike R V (Pure.pure a) (Pure.pure a') :=
  fun _ _ ht => ⟨h, ht, .nil⟩

theorem bind {p p' : Check α} {f f' : α → Check β} (hp : Check.Alike R V p p')
    (hf : ∀ a a', V a a' → Check.Alike R W (f a) (f' a')) : Check.Alike R W (p >>= f) (p' >>= f') := by
  intro t t' ht
  have h := hp t t' ht
  have h' := hf _ _ h.value _ _ h.state
  exact ⟨h'.value, h'.state, List.rel_append h.record h'.record⟩

/-- A first pass that yields the same both times. -/
theorem andThen {p p' : Check α} {f f' : α → Check β} (hp : Check.Same R p p')
    (hf : ∀ a, Check.Alike R W (f a) (f' a)) : Check.Alike R W (p >>= f) (p' >>= f') := by
  apply hp.bind
  intro a a' ha
  rw [ha]
  exact hf a'

theorem get {f f' : SymbolTable → Check α} (hf : ∀ t t', t.Alike R t' → Check.Alike R V (f t) (f' t')) :
    Check.Alike R V (Pass.get >>= f) (Pass.get >>= f') := fun t t' ht => hf t t' ht t t' ht

theorem modify {f f' : SymbolTable → SymbolTable} (hf : ∀ t t', t.Alike R t' → (f t).Alike R (f' t')) :
    Check.Same R (Pass.modify f) (Pass.modify f') := fun t t' ht => ⟨rfl, hf t t' ht, .nil⟩

theorem report (cause : SemanticCause) {s s' : Span} {hint hint' : String} (hs : R s s')
    (hh : HintAlike hint hint') : Check.Same R (Check.report cause s hint) (Check.report cause s' hint') :=
  fun _ _ ht => ⟨rfl, ht, .cons (.fault cause hs hh) .nil⟩

theorem require (ok : Bool) (cause : SemanticCause) {s s' : Span} (hs : R s s') (hint : String) :
    Check.Same R (Check.require ok cause s hint) (Check.require ok cause s' hint) := by
  unfold Check.require
  split
  · exact pure rfl
  · exact report cause hs (.same hint)

variable {P : γ → γ → Prop} {as as' : List γ}

theorem forM {f f' : γ → Check Unit} (h : List.Forall₂ P as as')
    (hf : ∀ a a', P a a' → Check.Same R (f a) (f' a')) : Check.Same R (as.forM f) (as'.forM f') := by
  induction h with
  | nil => exact pure rfl
  | cons ha _ ih => exact (hf _ _ ha).andThen fun _ => ih

theorem mapM {f f' : γ → Check α} (h : List.Forall₂ P as as')
    (hf : ∀ a a', P a a' → Check.Alike R V (f a) (f' a')) :
    Check.Alike R (List.Forall₂ V) (as.mapM f) (as'.mapM f') := by
  induction h with
  | nil =>
    rw [List.mapM_nil, List.mapM_nil]
    exact pure .nil
  | cons ha _ ih =>
    rw [List.mapM_cons, List.mapM_cons]
    exact (hf _ _ ha).bind fun b b' hb => ih.bind fun bs bs' hbs => pure (.cons hb hbs)

end Check.Alike

open Check (Same)

/-! ### Expressions -/

theorem checkName_alike (causes : NameCauses) (x : String) {s s' : Span} (hs : R s s') (hint : String) :
    Same R (checkName causes x s hint) (checkName causes x s' hint) := by
  refine .get fun t t' ht => ?_
  have hlookup := ht.lookup x
  generalize t.lookup? x = o at hlookup
  generalize t'.lookup? x = o' at hlookup
  cases hlookup with
  | none => exact (Check.Alike.report _ hs (.same hint)).andThen fun _ => .pure rfl
  | some he =>
    dsimp only
    rw [he.valueType, he.isUntouched]
    split
    · exact (Check.Alike.report _ hs (.same hint)).andThen fun _ => .pure rfl
    · exact (Check.Alike.require _ _ hs hint).andThen fun _ => .pure rfl

theorem Argument.check_alike (hint : String) {a a' : Argument} (h : a.Alike R a') :
    Same R (a.check hint) (a'.check hint) := by
  unfold Argument.check
  rw [h.atom]
  split
  · exact .pure rfl
  · exact checkName_alike _ _ h.span hint

theorem checkArguments_alike (function hint : String) (position : Nat) {as as' : List (Argument × Yield × Ty)}
    (h : List.Forall₂ (fun x x' => x.1.Alike R x'.1 ∧ x.2 = x'.2) as as') :
    Same R (checkArguments function hint position as) (checkArguments function hint position as') := by
  induction h generalizing position with
  | nil => exact .pure rfl
  | @cons x x' _ _ hx _ ih =>
    obtain ⟨a, found, expected⟩ := x
    obtain ⟨a', rest⟩ := x'
    obtain ⟨ha, rfl⟩ := hx
    exact (Check.Alike.require _ _ ha.span hint).andThen fun _ => ih _

theorem Call.check_alike {c c' : Call} (h : c.Alike R c') : Same R c.check c'.check := by
  have htext := h.text
  have hlength := h.args.length_eq
  unfold Call.check
  rw [htext, hlength, h.name]
  refine .get fun t t' ht => ?_
  have hkind : (t.lookupGlobal? c'.name).map Entity.kind = (t'.lookupGlobal? c'.name).map Entity.kind := by
    have hlookup := ht.lookupGlobal c'.name
    generalize t.lookupGlobal? c'.name = o at hlookup
    generalize t'.lookupGlobal? c'.name = o' at hlookup
    cases hlookup with
    | none => rfl
    | some he => exact congrArg some he.kind
  rw [hkind]
  split
  · exact (Check.Alike.report _ h.span (.same _)).andThen fun _ => .pure rfl
  · exact (Check.Alike.report _ h.span (.same _)).andThen fun _ => .pure rfl
  · refine (Check.Alike.require _ _ h.span _).andThen fun _ => (Check.Alike.require _ _ h.span _).andThen fun _ => ?_
    refine (Check.Alike.modify fun t t' ht => ht.setGlobalState c'.name .used).andThen fun _ => ?_
    refine (Check.Alike.mapM h.args fun a a' => Argument.check_alike c'.text).bind fun yields yields' hyields => ?_
    rw [List.forall₂_eq_eq_eq] at hyields
    rw [hyields]
    split
    · exact (checkArguments_alike _ _ _ (forall₂_zip h.args _)).andThen fun _ => .pure rfl
    · exact .pure rfl

theorem checkOperands_alike (cause : Yield → SemanticCause) (expected : Ty) (l r : Yield) {s s' : Span}
    (hs : R s s') (hint : String) :
    Same R (checkOperands cause expected l r s hint) (checkOperands cause expected l r s' hint) :=
  (Check.Alike.require _ _ hs hint).andThen fun _ => .require _ _ hs hint

theorem checkSigned_alike (cause : Yield → SemanticCause) (expected : Ty) (x : String) {s s' : Span} (hs : R s s')
    (hint : String) : Same R (checkSigned cause expected x s hint) (checkSigned cause expected x s' hint) := by
  refine (checkName_alike _ x hs hint).andThen fun found => ?_
  split
  · exact .pure rfl
  · exact (Check.Alike.require _ _ hs hint).andThen fun _ => .pure rfl

theorem Fragment.check_alike (f : Fragment) {s s' : Span} (hs : R s s') : Same R (f.check s) (f.check s') := by
  unfold Fragment.check
  split
  · exact .pure rfl
  · exact .pure rfl
  · exact .pure rfl
  · exact checkName_alike _ _ hs _
  · exact checkSigned_alike _ _ _ hs _
  · exact checkSigned_alike _ _ _ hs _

/-- Expressions that differ in their spans yield the same. -/
theorem Expr.check_alike {e e' : Expr} (h : e.Alike R e') : Same R e.check e'.check := by
  induction h with
  | arith hl hr hs ihl ihr =>
    rw [Expr.check, Expr.check, (Expr.Alike.arith hl hr hs).text]
    exact ihl.andThen fun l => ihr.andThen fun r => (checkOperands_alike _ _ l r hs _).andThen fun _ => .pure rfl
  | logic hl hr hs ihl ihr =>
    rw [Expr.check, Expr.check, (Expr.Alike.logic hl hr hs).text]
    exact ihl.andThen fun l => ihr.andThen fun r => (checkOperands_alike _ _ l r hs _).andThen fun _ => .pure rfl
  | paren _ _ ih => exact ih
  | call hc _ => exact Call.check_alike hc
  | fragment hs => exact Fragment.check_alike _ hs

theorem Cond.check_alike {c c' : Cond} (h : c.Alike R c') : Same R c.check c'.check := by
  induction h with
  | comparison hl hr hs =>
    rw [Cond.check, Cond.check, (Cond.Alike.comparison hl hr hs).text]
    refine (Expr.check_alike hl).andThen fun l => (Expr.check_alike hr).andThen fun r => ?_
    exact checkOperands_alike _ _ l r hs _
  | equality hl hr hs =>
    rw [Cond.check, Cond.check, (Cond.Alike.equality hl hr hs).text]
    exact (Expr.check_alike hl).andThen fun l => (Expr.check_alike hr).andThen fun r => .require _ _ hs _
  | neg _ _ ih => exact ih
  | paren _ _ ih => exact ih
  | binary _ _ _ ihl ihr => exact ihl.andThen fun _ => ihr
  | bool _ => exact .pure rfl

/-! ### Statements -/

theorem markReferenced_alike {e e' : Expr} (h : e.Alike R e') : Same R (markReferenced e) (markReferenced e') := by
  unfold markReferenced
  rw [h.referencedName]
  split
  · exact .pure rfl
  · rename_i x _
    refine .get fun t t' ht => ?_
    have hlookup := ht.lookup x
    generalize t.lookup? x = o at hlookup
    generalize t'.lookup? x = o' at hlookup
    cases hlookup with
    | none => exact .pure rfl
    | some he =>
      dsimp only
      rw [he.isFunction, he.isConstant]
      split
      · exact .pure rfl
      · exact .modify fun t t' ht => ht.setState x .used

theorem checkAssignment_alike (x : String) {e e' : Expr} (he : e.Alike R e') {s s' : Span} (hs : R s s') :
    Same R (checkAssignment x e s) (checkAssignment x e' s') := by
  refine (Expr.check_alike he).andThen fun found => (markReferenced_alike he).andThen fun _ => .get fun t t' ht => ?_
  have htext : assignmentText x e = assignmentText x e' := by rw [assignmentText, assignmentText, he.text]
  have hlookup := ht.lookup x
  rw [htext]
  generalize t.lookup? x = o at hlookup
  generalize t'.lookup? x = o' at hlookup
  cases hlookup with
  | none => exact .report _ hs (.same _)
  | some hentity =>
    dsimp only
    rw [hentity.valueType, hentity.isConstant]
    split
    · exact .report _ hs (.same _)
    · split
      · exact .report _ hs (.same _)
      · exact (Check.Alike.require _ _ hs _).andThen fun _ => .modify fun t t' ht => ht.setState x .assigned

/-- Statements that differ in their spans are checked alike. -/
theorem Stmt.checkAll_alike {ss ss' : List Stmt} (h : Stmt.AllAlike R ss ss') :
    Same R (Stmt.checkAll ss) (Stmt.checkAll ss') := by
  induction h with
  | nil => exact .pure rfl
  | assign he ha _ _ ih =>
    rw [Stmt.checkAll, Stmt.checkAll, Stmt.check, Stmt.check]
    exact (checkAssignment_alike _ he ha).andThen fun _ => ih
  | ite hc _ _ _ _ iht ihe ih =>
    rw [Stmt.checkAll, Stmt.checkAll, Stmt.check, Stmt.check, Block.check, Block.check, Block.check, Block.check]
    have hboth := (Cond.check_alike hc).andThen fun _ => iht.andThen fun _ => ihe
    exact hboth.andThen fun _ => ih
  | loop hc _ _ _ ihb ih =>
    rw [Stmt.checkAll, Stmt.checkAll, Stmt.check, Stmt.check, Block.check, Block.check]
    exact ((Cond.check_alike hc).andThen fun _ => ihb).andThen fun _ => ih
  | call hc _ _ ih =>
    rw [Stmt.checkAll, Stmt.checkAll, Stmt.check, Stmt.check]
    exact ((Call.check_alike hc).andThen fun _ => .pure rfl).andThen fun _ => ih
  | block _ _ _ ihb ih =>
    rw [Stmt.checkAll, Stmt.checkAll, Stmt.check, Stmt.check, Block.check, Block.check]
    exact ihb.andThen fun _ => ih
  | skip _ _ ih =>
    rw [Stmt.checkAll, Stmt.checkAll, Stmt.check, Stmt.check]
    exact Check.Alike.andThen (.pure rfl) fun _ => ih

theorem Block.check_alike {b b' : Block} (h : Stmt.AllAlike R b.nodes b'.nodes) :
    Same R (Block.check b) (Block.check b') := by
  rw [Block.check, Block.check]
  exact Stmt.checkAll_alike h

/-! ### Declarations -/

theorem checkReserved_alike (x : String) {s s' : Span} (hs : R s s') :
    Same R (checkReserved x s) (checkReserved x s') := .require _ _ hs _

theorem bindEntity_alike {define define' : SymbolTable → Except Entity SymbolTable}
    {cause cause' : Entity → SemanticCause} {s s' : Span} {since : String}
    (hd : ∀ t t', t.Alike R t' → Except.Rel (Entity.Alike R) (SymbolTable.Alike R) (define t) (define' t'))
    (hc : ∀ e e', e.Alike R e' → cause e = cause' e') (hs : R s s') (hsince : since ∈ positionHints) :
    Same R (bindEntity define cause s since) (bindEntity define' cause' s' since) := by
  refine .get fun t t' ht => ?_
  have hdefine := hd t t' ht
  generalize define t = o at hdefine
  generalize define' t' = o' at hdefine
  cases hdefine with
  | ok htable => exact .modify fun _ _ _ => htable
  | error hexisting =>
    dsimp only
    rw [hc _ _ hexisting]
    exact .report _ hs (.position hsince _ _)

theorem bindLocal_alike {e e' : Entity} (h : Entity.Alike R e e') : Same R (bindLocal e) (bindLocal e') :=
  bindEntity_alike (fun _ _ ht => ht.define h) (fun _ _ _ => by rw [h.name]) h.span List.mem_cons_self

theorem Decl.check_alike {d d' : Decl} (h : d.Alike R d') : Same R d.check d'.check := by
  have htext := h.text
  cases h with
  | @var x ty s s' hs =>
    have hentity : Entity.Alike R (.unassigned x ty s) (.unassigned x ty s') := ⟨rfl, rfl, rfl, hs⟩
    exact (checkReserved_alike _ hs).andThen fun _ => bindLocal_alike hentity
  | @const x ty e e' s s' he hs =>
    have hentity : Entity.Alike R (.constant x ty s) (.constant x ty s') := ⟨rfl, rfl, rfl, hs⟩
    rw [Decl.check, Decl.check, htext]
    refine (Expr.check_alike he).andThen fun found => (checkReserved_alike _ hs).andThen fun _ => ?_
    exact (bindLocal_alike hentity).andThen fun _ => .require _ _ hs _

theorem Decl.checkAll_alike {ds ds' : List Decl} (h : List.Forall₂ (Decl.Alike R) ds ds') :
    Same R (ds.forM Decl.check) (ds'.forM Decl.check) := .forM h fun _ _ => Decl.check_alike

theorem inScope_alike {body body' : Check Unit} (h : Same R body body') :
    Check.Alike R (List.Forall₂ (Warning.Alike R)) (inScope body) (inScope body') := by
  refine (Check.Alike.modify fun _ _ => SymbolTable.Alike.push).andThen fun _ => h.andThen fun _ => ?_
  refine .get fun t t' ht => ?_
  obtain ⟨inner, globals⟩ := t
  obtain ⟨inner', globals'⟩ := t'
  cases ht.inner with
  | nil => exact .pure .nil
  | @cons s s' outer outer' hs houter =>
    have hpopped : SymbolTable.Alike R ⟨outer, globals⟩ ⟨outer', globals'⟩ := ⟨houter, ht.globals⟩
    exact (Check.Alike.modify fun _ _ _ => hpopped).andThen fun _ => .pure hs.warnings

/-! ### Functions and programs -/

theorem Param.check_alike (function : String) {p p' : Param} (h : p.Alike R p') :
    Same R (p.check function) (p'.check function) := by
  unfold Param.check
  rw [h.name]
  refine (checkReserved_alike _ h.span).andThen fun _ => ?_
  refine bindEntity_alike (fun _ _ ht => ht.define ?_) (fun _ _ _ => rfl) h.span
    (List.mem_cons_of_mem _ List.mem_cons_self)
  exact ⟨rfl, congrArg EntityKind.value h.type, rfl, h.span⟩

theorem Func.checkReturn_alike {f f' : Func} (h : f.Alike R f') : Same R f.checkReturn f'.checkReturn := by
  have hvalue := h.returnValue
  unfold Func.checkReturn
  rw [h.name, h.returnType]
  generalize f.returnValue = value at hvalue
  generalize f'.returnValue = value' at hvalue
  cases hvalue with
  | none => exact .require _ _ h.span _
  | some he =>
    dsimp only
    rw [he.text]
    exact (Expr.check_alike he).andThen fun found => .require _ _ he.span _

theorem Func.register_alike {f f' : Func} (h : f.Alike R f') : Same R f.register f'.register := by
  have htypes : f.params.map (·.type) = f'.params.map (·.type) :=
    map_eq_of_forall₂ (h.params.imp fun _ _ hp => hp.type)
  unfold Func.register
  rw [h.name, h.returnType, htypes]
  refine (checkReserved_alike _ h.span).andThen fun _ => ?_
  refine bindEntity_alike (fun _ _ ht => ht.defineGlobal ⟨rfl, rfl, rfl, h.span⟩) (fun e e' he => ?_) h.span
    (List.mem_cons_of_mem _ List.mem_cons_self)
  rw [he.isFunction]

theorem Func.check_alike {f f' : Func} (h : f.Alike R f') :
    Check.Alike R (List.Forall₂ (Warning.Alike R)) f.check f'.check := by
  unfold Func.check
  rw [h.name]
  refine (Func.register_alike h).andThen fun _ => inScope_alike ?_
  refine (Check.Alike.forM h.params fun _ _ => Param.check_alike f'.name).andThen fun _ => ?_
  refine (Decl.checkAll_alike h.decls).andThen fun _ => (Block.check_alike h.body).andThen fun _ => ?_
  exact Func.checkReturn_alike h

namespace Program

theorem check_alike {p p' : Program} (h : p.Alike R p') :
    Check.Alike R (List.Forall₂ (Warning.Alike R)) p.check p'.check := by
  refine (Decl.checkAll_alike h.decls).andThen fun _ => ?_
  refine (Check.Alike.mapM h.funcs fun _ _ => Func.check_alike).bind fun inFunctions inFunctions' hfuncs => ?_
  have hmain := inScope_alike ((Decl.checkAll_alike h.main.decls).andThen fun _ => Block.check_alike h.main.body)
  refine hmain.bind fun inMain inMain' hin => .get fun t t' ht => .pure ?_
  exact List.rel_append (List.rel_append (List.rel_flatten hfuncs) hin) ht.globals.warnings

/-- **Findings.**  In programs that differ in their spans the same is found, at corresponding places. -/
theorem analyze_alike {p p' : Program} (h : p.Alike R p') : p.analyze.Alike R p'.analyze := by
  have hchecked := check_alike h _ _ SymbolTable.Alike.empty
  exact ⟨hchecked.record, hchecked.value⟩

end Program

end ThreeAddress
