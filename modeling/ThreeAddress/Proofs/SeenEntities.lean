import ThreeAddress.Proofs.TouchedNames

/-!
# What checks see of entities

A check sees the name, the kind and the place of an entity, and of anything but a function whether it is a constant and
whether it is untouched.  How an entity was touched, and whether a function was called before, makes no difference to
what is found.

* `Entity.seen`, `SymbolTable.seen` — entities and tables as checks see them;
* `Check.Blind` — a check that finds the same in tables that look the same, and its laws;
* `Fault.isRedeclaration`, `Check.Steady` — a blind check that reports no redeclaration;
* `Expr.check_steady`, `Stmt.check_steady`, `Func.checkReturn_steady` — the parts of a body are checked so;
* `Decl.check_blind`, `Param.check_blind`, `Func.register_blind` — checks that bind names.
-/

namespace ThreeAddress

variable {α β : Type}

/-! ### Entities, scopes and tables -/

namespace Entity

/-- An entity as checks see it. -/
def seen (e : Entity) : Entity := if e.isFunction then e.withState .declared else e.plain

@[simp] theorem seen_name (e : Entity) : e.seen.name = e.name := by
  unfold seen
  split
  · rfl
  · exact e.plain_name

@[simp] theorem seen_kind (e : Entity) : e.seen.kind = e.kind := by
  unfold seen plain
  split
  · rfl
  · split <;> rfl

@[simp] theorem seen_span (e : Entity) : e.seen.span = e.span := by
  unfold seen plain
  split
  · rfl
  · split <;> rfl

@[simp] theorem seen_isFunction (e : Entity) : e.seen.isFunction = e.isFunction := by
  rw [isFunction, isFunction, seen_kind]

@[simp] theorem seen_valueType? (e : Entity) : e.seen.valueType? = e.valueType? := by
  rw [valueType?, valueType?, seen_kind]

theorem seen_isUntouched {e : Entity} (hf : e.isFunction = false) : e.seen.isUntouched = e.isUntouched := by
  rw [seen, hf]
  exact e.plain_isUntouched

theorem seen_isConstant {e : Entity} (hf : e.isFunction = false) : e.seen.isConstant = e.isConstant := by
  rw [seen, hf]
  cases hstate : e.state <;>
    simp [plain, isUntouched, isConstant, hf, hstate, withState]

theorem isFunction_of_valueType? {e : Entity} {type : Ty} (h : e.valueType? = some type) : e.isFunction = false := by
  obtain ⟨name, kind, state, span⟩ := e
  cases kind with
  | value type => rfl
  | function result params => cases h

/-- Only functions and constants cannot be set, and both are seen. -/
theorem seen_isFixed (e : Entity) :
    (e.seen.isFunction || e.seen.isConstant) = (e.isFunction || e.isConstant) := by
  cases hf : e.isFunction with
  | true => simp [hf]
  | false => rw [seen_isFunction, hf, seen_isConstant hf]

/-- A state that is set does not depend on the one before. -/
theorem seen_withState (e : Entity) (state : EntityState) :
    (e.withState state).seen = (e.seen.withState state).seen := by
  have hsame : e.seen.withState state = e.withState state := by
    cases e
    simp only [seen, plain]
    split
    · rfl
    · split <;> rfl
  rw [hsame]

/-- How an entity was touched is not seen. -/
theorem seen_plain (e : Entity) : e.plain.seen = e.seen := by
  obtain ⟨name, kind, state, span⟩ := e
  cases kind <;> cases state <;> rfl

theorem seen_seen (e : Entity) : e.seen.seen = e.seen := by
  obtain ⟨name, kind, state, span⟩ := e
  cases kind <;> cases state <;> rfl

/-- Whether a function was called is not seen. -/
theorem seen_note_called (called : List String) (e : Entity) : (e.note [] called).seen = e.seen := by
  obtain ⟨name, kind, state, span⟩ := e
  cases kind with
  | value type => rw [note_of_not_among (by simp [isAmong, isFunction])]
  | function result params =>
    unfold note
    split <;> rfl

end Entity

namespace Scope

/-- A scope as checks see it. -/
def seen (s : Scope) : Scope := ⟨s.entities.map Entity.seen⟩

theorem lookup_seen (s : Scope) (x : String) : s.seen.lookup? x = (s.lookup? x).map Entity.seen := by
  rw [lookup?, seen, List.find?_map, lookup?]
  simp only [Function.comp_def, Entity.seen_name]

theorem contains_seen (s : Scope) (x : String) : s.seen.contains x = s.contains x := by
  rw [contains, seen, List.any_map]
  simp only [Function.comp_def, Entity.seen_name, contains]

theorem seen_plain (s : Scope) : s.plain.seen = s.seen := by
  simp [seen, plain, Function.comp_def, Entity.seen_plain]

theorem seen_seen (s : Scope) : s.seen.seen = s.seen := by
  simp [seen, Function.comp_def, Entity.seen_seen]

theorem seen_note_called (called : List String) (s : Scope) : (s.note [] called).seen = s.seen := by
  simp [seen, note, Function.comp_def, Entity.seen_note_called]

theorem seen_setState (s : Scope) (x : String) (state : EntityState) :
    (s.setState x state).seen = (s.seen.setState x state).seen := by
  simp only [seen, setState, List.map_map]
  refine congrArg _ (List.map_congr_left fun e _ => ?_)
  simp only [Function.comp_apply, Entity.seen_name]
  split
  · exact e.seen_withState state
  · exact e.seen_seen.symm

/-- Whether a name is taken, and by what, is seen. -/
theorem define_seen (s : Scope) (e : Entity) :
    (∃ s₁ s₂, s.define e = .ok s₁ ∧ s.seen.define e = .ok s₂ ∧ s₁.seen = s₂.seen) ∨
      ∃ old, s.define e = .error old ∧ s.seen.define e = .error old.seen := by
  unfold define
  rw [s.lookup_seen]
  cases s.lookup? e.name with
  | some old => exact .inr ⟨old, rfl, rfl⟩
  | none =>
    refine .inl ⟨_, _, rfl, rfl, ?_⟩
    simp [seen, Function.comp_def, Entity.seen_seen]

end Scope

namespace SymbolTable

/-- A table as checks see it. -/
def seen (t : SymbolTable) : SymbolTable := ⟨t.inner.map Scope.seen, t.globals.seen⟩

theorem lookup_seen (t : SymbolTable) (x : String) : t.seen.lookup? x = (t.lookup? x).map Entity.seen := by
  have hinner (scopes : List Scope) : (scopes.map Scope.seen).findSome? (·.lookup? x) =
      (scopes.findSome? (·.lookup? x)).map Entity.seen := by
    induction scopes with
    | nil => rfl
    | cons s outer ih =>
      rw [List.map_cons, List.findSome?_cons, List.findSome?_cons, s.lookup_seen]
      cases s.lookup? x with
      | some e => rfl
      | none => exact ih
  rw [lookup?, lookup?, seen, hinner]
  cases t.inner.findSome? (·.lookup? x) with
  | some e => rfl
  | none => exact t.globals.lookup_seen x

theorem lookupGlobal_seen (t : SymbolTable) (x : String) :
    t.seen.lookupGlobal? x = (t.lookupGlobal? x).map Entity.seen := t.globals.lookup_seen x

theorem seen_plain (t : SymbolTable) : t.plain.seen = t.seen := by
  simp [seen, plain, Function.comp_def, Scope.seen_plain]

theorem seen_seen (t : SymbolTable) : t.seen.seen = t.seen := by
  simp [seen, Function.comp_def, Scope.seen_seen]

theorem seen_setGlobalState (t : SymbolTable) (x : String) (state : EntityState) :
    (t.setGlobalState x state).seen = (t.seen.setGlobalState x state).seen := by
  simp [seen, setGlobalState, t.globals.seen_setState x state, Function.comp_def, Scope.seen_seen]

theorem seen_setState (t : SymbolTable) (x : String) (state : EntityState) :
    (t.setState x state).seen = (t.seen.setState x state).seen := by
  have hinner (scopes : List Scope) :
      (setStateIn x state scopes).map (List.map Scope.seen) =
        (setStateIn x state (scopes.map Scope.seen)).map (List.map Scope.seen) := by
    induction scopes with
    | nil => rfl
    | cons s outer ih =>
      rw [List.map_cons, setStateIn, setStateIn, s.contains_seen]
      split
      · simp [s.seen_setState x state, Function.comp_def, Scope.seen_seen]
      · rw [Option.map_map, Option.map_map]
        have h := congrArg (Option.map (s.seen :: ·)) ih
        rw [Option.map_map, Option.map_map] at h
        simpa [Function.comp_def, Scope.seen_seen] using h
  have h := hinner t.inner
  have hseen : t.seen.inner = t.inner.map Scope.seen := rfl
  rw [setState, setState, hseen]
  cases hs : setStateIn x state t.inner with
  | some inner =>
    rw [hs, Option.map_some] at h
    obtain ⟨inner', hs', heq⟩ := Option.map_eq_some_iff.1 h.symm
    rw [hs']
    simp [seen, ← heq, Scope.seen_seen]
  | none =>
    rw [hs, Option.map_none] at h
    rw [Option.map_eq_none_iff.1 h.symm]
    exact t.seen_setGlobalState x state

end SymbolTable

/-! ### Checks that are blind -/

/-- What a check comes to, its table as checks see it. -/
def Passed.seen (r : Passed SymbolTable Fault α) : Passed SymbolTable Fault α := { r with state := r.state.seen }

/-- A check comes to the same in tables that look the same. -/
def Check.Blind (p : Check α) : Prop := ∀ t, (p.run t).seen = (p.run t.seen).seen

namespace Check.Blind

variable {p : Check α} {f : α → Check β} {t t' : SymbolTable}

/-- Two tables that look the same. -/
theorem run_eq (h : p.Blind) (ht : t.seen = t'.seen) : (p.run t).seen = (p.run t').seen := by
  rw [h t, h t', ht]

theorem record_eq (h : p.Blind) (ht : t.seen = t'.seen) : (p.run t).record = (p.run t').record := by
  have heq := h.run_eq ht
  simp only [Passed.seen, Passed.mk.injEq] at heq
  exact heq.2.2

theorem pure (a : α) : Check.Blind (Pure.pure a) := by
  intro t
  simp [Passed.seen, t.seen_seen]

theorem report (cause : SemanticCause) (span : Span) (hint : String) : Check.Blind (Check.report cause span hint) := by
  intro t
  simp [Passed.seen, Check.report, t.seen_seen]

theorem bind (hp : p.Blind) (hf : ∀ a, (f a).Blind) : Check.Blind (p >>= f) := by
  intro t
  have hfirst := hp t
  simp only [Passed.seen, Passed.mk.injEq] at hfirst
  obtain ⟨hvalue, hstate, hrecord⟩ := hfirst
  have hlast := (hf (p.run t).value).run_eq hstate
  simp only [Passed.seen, Passed.mk.injEq] at hlast
  simp only [Pass.run_bind, Passed.seen, Passed.mk.injEq, ← hvalue, ← hrecord]
  exact ⟨hlast.1, hlast.2.1, by rw [hlast.2.2]⟩

theorem require (ok : Bool) (cause : SemanticCause) (span : Span) (hint : String) :
    Check.Blind (Check.require ok cause span hint) := by
  unfold Check.require
  split
  · exact pure ()
  · exact report cause span hint

/-- What is done depends on what is seen. -/
theorem get {f : SymbolTable → Check α} (hseen : ∀ t, f t = f t.seen) (hf : ∀ t, (f t).Blind) :
    Check.Blind (Pass.get >>= f) := by
  intro t
  show ((f t).run t).seen = ((f t.seen).run t.seen).seen
  rw [← hseen t]
  exact hf t t

theorem modify {f : SymbolTable → SymbolTable} (hf : ∀ t, (f t).seen = (f t.seen).seen) :
    Check.Blind (Pass.modify f) := by
  intro t
  simp [Passed.seen, hf t]

end Check.Blind

/-! ### Checks that report no redeclaration -/

/-- Whether a fault is about a name that is taken. -/
def Fault.isRedeclaration (f : Fault) : Bool :=
  f.code ∈ [FaultCode.alreadyDeclared, .functionRedefined, .duplicateParameter]

/-- A blind check that reports no redeclaration. -/
structure Check.Steady (p : Check α) : Prop where
  blind : p.Blind
  quiet : ∀ t, (p.run t).record.filter Fault.isRedeclaration = []

namespace Check.Steady

variable {p : Check α} {f : α → Check β}

theorem pure (a : α) : Check.Steady (Pure.pure a) := ⟨.pure a, fun _ => rfl⟩

theorem bind (hp : p.Steady) (hf : ∀ a, (f a).Steady) : Check.Steady (p >>= f) := by
  refine ⟨hp.blind.bind fun a => (hf a).blind, fun t => ?_⟩
  rw [Pass.run_bind, List.filter_append, hp.quiet, (hf _).quiet, List.append_nil]

theorem report {cause : SemanticCause} {span : Span} {hint : String}
    (h : (cause.fault span hint).isRedeclaration = false) : Check.Steady (Check.report cause span hint) :=
  ⟨.report cause span hint, fun _ => List.filter_cons_of_neg (Bool.not_eq_true _ ▸ h)⟩

theorem require {ok : Bool} {cause : SemanticCause} {span : Span} {hint : String}
    (h : (cause.fault span hint).isRedeclaration = false) : Check.Steady (Check.require ok cause span hint) := by
  unfold Check.require
  split
  · exact pure ()
  · exact report h

theorem get {f : SymbolTable → Check α} (hseen : ∀ t, f t = f t.seen) (hf : ∀ t, (f t).Steady) :
    Check.Steady (Pass.get >>= f) := ⟨.get hseen fun t => (hf t).blind, fun t => (hf t).quiet t⟩

theorem modify {f : SymbolTable → SymbolTable} (hf : ∀ t, (f t).seen = (f t.seen).seen) :
    Check.Steady (Pass.modify f) := ⟨.modify hf, fun _ => rfl⟩

theorem mapM {f : β → Check α} (hf : ∀ b, (f b).Steady) (bs : List β) : Check.Steady (bs.mapM f) := by
  induction bs with
  | nil =>
    rw [List.mapM_nil]
    exact pure []
  | cons b more ih =>
    rw [List.mapM_cons]
    exact (hf b).bind fun _ => ih.bind fun _ => pure _

end Check.Steady

open Check (Blind Steady)

/-! ### Expressions and conditions -/

/-- The causes for which a name is refused as a value are no redeclarations. -/
structure NameCauses.Quiet (causes : NameCauses) : Prop where
  undefined : ∀ x span hint, ((causes.undefined x).fault span hint).isRedeclaration = false
  function : ∀ x span hint, ((causes.function x).fault span hint).isRedeclaration = false
  unassigned : ∀ x span hint, ((causes.unassigned x).fault span hint).isRedeclaration = false

theorem NameCauses.ofOperand_quiet : NameCauses.ofOperand.Quiet :=
  ⟨fun _ _ _ => rfl, fun _ _ _ => rfl, fun _ _ _ => rfl⟩

theorem NameCauses.ofArgument_quiet : NameCauses.ofArgument.Quiet :=
  ⟨fun _ _ _ => rfl, fun _ _ _ => rfl, fun _ _ _ => rfl⟩

theorem checkName_steady {causes : NameCauses} (hc : causes.Quiet) (x : String) (span : Span) (hint : String) :
    (checkName causes x span hint).Steady := by
  refine .get (fun t => ?_) fun t => ?_
  · rw [t.lookup_seen]
    cases t.lookup? x with
    | none => rfl
    | some e =>
      dsimp only [Option.map_some]
      rw [e.seen_valueType?]
      cases hv : e.valueType? with
      | none => rfl
      | some type =>
        dsimp only
        rw [Entity.seen_isUntouched (Entity.isFunction_of_valueType? hv)]
  · split
    · exact (Steady.report (hc.undefined _ _ _)).bind fun _ => .pure _
    · split
      · exact (Steady.report (hc.function _ _ _)).bind fun _ => .pure _
      · exact (Steady.require (hc.unassigned _ _ _)).bind fun _ => .pure _

theorem Argument.check_steady (hint : String) (a : Argument) : (a.check hint).Steady := by
  unfold Argument.check
  split
  · exact .pure _
  · exact checkName_steady NameCauses.ofArgument_quiet _ _ _

theorem checkArguments_steady (function hint : String) (position : Nat) (as : List (Argument × Yield × Ty)) :
    (checkArguments function hint position as).Steady := by
  induction as generalizing position with
  | nil => exact .pure ()
  | cons a more ih => exact (Steady.require rfl).bind fun _ => ih _

theorem Call.check_steady (c : Call) : c.check.Steady := by
  refine .get (fun t => ?_) fun t => ?_
  · have hkind : (t.seen.lookupGlobal? c.name).map Entity.kind = (t.lookupGlobal? c.name).map Entity.kind := by
      rw [t.lookupGlobal_seen, Option.map_map]
      simp [Function.comp_def]
    rw [hkind]
  · split
    · exact (Steady.report rfl).bind fun _ => .pure _
    · exact (Steady.report rfl).bind fun _ => .pure _
    · refine (Steady.require rfl).bind fun _ => (Steady.require rfl).bind fun _ => ?_
      refine (Steady.modify (f := (·.setGlobalState c.name .used)) fun t => t.seen_setGlobalState _ _).bind fun _ => ?_
      refine (Steady.mapM (Argument.check_steady c.text) c.args).bind fun yields => ?_
      split
      · exact (checkArguments_steady _ _ _ _).bind fun _ => .pure _
      · exact .pure _

theorem checkOperands_steady {cause : Yield → SemanticCause} {span : Span} {hint : String}
    (hc : ∀ y, ((cause y).fault span hint).isRedeclaration = false) (expected : Ty) (l r : Yield) :
    (checkOperands cause expected l r span hint).Steady :=
  (Steady.require (hc l)).bind fun _ => .require (hc r)

theorem checkSigned_steady {cause : Yield → SemanticCause} {span : Span} {hint : String}
    (hc : ∀ y, ((cause y).fault span hint).isRedeclaration = false) (expected : Ty) (x : String) :
    (checkSigned cause expected x span hint).Steady := by
  refine (checkName_steady NameCauses.ofOperand_quiet x span hint).bind fun found => ?_
  split
  · exact .pure _
  · exact (Steady.require (hc _)).bind fun _ => .pure _

theorem Fragment.check_steady (f : Fragment) (span : Span) : (f.check span).Steady := by
  unfold Fragment.check
  split
  · exact .pure _
  · exact .pure _
  · exact .pure _
  · exact checkName_steady NameCauses.ofOperand_quiet _ _ _
  · exact checkSigned_steady (fun _ => rfl) _ _
  · exact checkSigned_steady (fun _ => rfl) _ _

theorem Expr.check_steady (e : Expr) : e.check.Steady := by
  induction e with
  | arith op l r s ihl ihr | logic op l r s ihl ihr =>
    exact ihl.bind fun _ => ihr.bind fun _ => (checkOperands_steady (fun _ => rfl) _ _ _).bind fun _ => .pure _
  | paren inner s ih => exact ih
  | call c s => exact c.check_steady
  | fragment f s => exact f.check_steady s

theorem Cond.check_steady (c : Cond) : c.check.Steady := by
  induction c with
  | comparison op l r s =>
    exact l.check_steady.bind fun _ => r.check_steady.bind fun _ => checkOperands_steady (fun _ => rfl) _ _ _
  | equality op l r s => exact l.check_steady.bind fun _ => r.check_steady.bind fun _ => .require rfl
  | neg inner s ih | paren inner s ih => exact ih
  | binary op l r s ihl ihr => exact ihl.bind fun _ => ihr
  | bool b s => exact .pure ()

/-! ### Statements -/

theorem markReferenced_steady (value : Expr) : (markReferenced value).Steady := by
  unfold markReferenced
  cases value.referencedName? with
  | none => exact .pure ()
  | some x =>
    refine .get (fun t => ?_) fun t => ?_
    · rw [t.lookup_seen]
      cases t.lookup? x with
      | none => rfl
      | some e =>
        dsimp only [Option.map_some]
        rw [e.seen_isFixed]
    · split
      · exact .pure ()
      · split
        · exact .pure ()
        · exact .modify fun t => t.seen_setState x .used

theorem checkAssignment_steady (target : String) (value : Expr) (span : Span) :
    (checkAssignment target value span).Steady := by
  refine value.check_steady.bind fun found => (markReferenced_steady value).bind fun _ => ?_
  refine .get (fun t => ?_) fun t => ?_
  · rw [t.lookup_seen]
    cases t.lookup? target with
    | none => rfl
    | some e =>
      dsimp only [Option.map_some]
      rw [e.seen_valueType?]
      cases hv : e.valueType? with
      | none => rfl
      | some type =>
        dsimp only
        rw [Entity.seen_isConstant (Entity.isFunction_of_valueType? hv)]
  · split
    · exact .report rfl
    · split
      · exact .report rfl
      · split
        · exact .report rfl
        · exact (Steady.require rfl).bind fun _ => .modify fun t => t.seen_setState target .assigned

theorem Stmt.check_steady : (∀ s : Stmt, s.check.Steady) ∧ ∀ ss, (Stmt.checkAll ss).Steady := by
  refine Stmt.parts ?assign ?ite ?loop ?call ?block ?skip ?nil ?cons
  case assign =>
    intro x e a s
    exact checkAssignment_steady x e a
  case ite =>
    intro c th el s iht ihe
    rw [Stmt.check, Block.check, Block.check]
    exact c.check_steady.bind fun _ => iht.bind fun _ => ihe
  case loop =>
    intro c b s ih
    rw [Stmt.check, Block.check]
    exact c.check_steady.bind fun _ => ih
  case call =>
    intro c s
    exact c.check_steady.bind fun _ => .pure ()
  case block =>
    intro b s ih
    rw [Stmt.check, Block.check]
    exact ih
  case skip => exact fun s => .pure ()
  case nil => exact .pure ()
  case cons =>
    intro s more ihs ihmore
    rw [Stmt.checkAll]
    exact ihs.bind fun _ => ihmore

theorem Block.check_steady (b : Block) : (Block.check b).Steady := by
  rw [Block.check]
  exact Stmt.check_steady.2 b.nodes

theorem Func.checkReturn_steady (f : Func) : f.checkReturn.Steady := by
  unfold Func.checkReturn
  cases f.returnValue with
  | some value => exact value.check_steady.bind fun _ => .require rfl
  | none => exact .require rfl

/-! ### Checks that bind names -/

theorem checkReserved_steady (x : String) (span : Span) : (checkReserved x span).Steady := .require rfl

/-- A way of defining that sees whether a name is taken, and by what. -/
def DefinesSeen (define : SymbolTable → Except Entity SymbolTable) : Prop :=
  ∀ t, (∃ t₁ t₂, define t = .ok t₁ ∧ define t.seen = .ok t₂ ∧ t₁.seen = t₂.seen) ∨
    ∃ old, define t = .error old ∧ define t.seen = .error old.seen

theorem SymbolTable.defineGlobal_seen (e : Entity) : DefinesSeen (·.defineGlobal e) := by
  intro t
  simp only [defineGlobal, show t.seen.globals = t.globals.seen from rfl]
  rcases t.globals.define_seen e with ⟨g₁, g₂, h₁, h₂, hg⟩ | ⟨old, h₁, h₂⟩
  · refine .inl ⟨_, _, by rw [h₁]; rfl, by rw [h₂]; rfl, ?_⟩
    simp [seen, hg, Function.comp_def, Scope.seen_seen]
  · exact .inr ⟨old, by rw [h₁]; rfl, by rw [h₂]; rfl⟩

theorem SymbolTable.define_seen (e : Entity) : DefinesSeen (·.define e) := by
  rintro ⟨inner, globals⟩
  cases inner with
  | nil => exact defineGlobal_seen e ⟨[], globals⟩
  | cons s outer =>
    simp only [define, seen, List.map_cons]
    rcases s.define_seen e with ⟨s₁, s₂, h₁, h₂, hs⟩ | ⟨old, h₁, h₂⟩
    · refine .inl ⟨_, _, by rw [h₁]; rfl, by rw [h₂]; rfl, ?_⟩
      simp [hs, Function.comp_def, Scope.seen_seen]
    · exact .inr ⟨old, by rw [h₁]; rfl, by rw [h₂]; rfl⟩

theorem bindEntity_blind {define : SymbolTable → Except Entity SymbolTable} (hd : DefinesSeen define)
    {cause : Entity → SemanticCause} (hc : ∀ e, cause e = cause e.seen) (span : Span) (since : String) :
    (bindEntity define cause span since).Blind := by
  intro t
  unfold bindEntity
  rw [Pass.run_bind, Pass.run_bind, Pass.run_get, Pass.run_get]
  dsimp only
  rcases hd t with ⟨t₁, t₂, h₁, h₂, ht⟩ | ⟨old, h₁, h₂⟩
  · rw [h₁, h₂]
    simp [Passed.seen, ht]
  · rw [h₁, h₂]
    simp [Passed.seen, Check.report, ← hc, t.seen_seen]

theorem bindLocal_blind (e : Entity) : (bindLocal e).Blind :=
  bindEntity_blind (SymbolTable.define_seen e) (fun _ => rfl) _ _

theorem Decl.check_blind (d : Decl) : d.check.Blind := by
  cases d with
  | var name type span => exact (checkReserved_steady name span).blind.bind fun _ => bindLocal_blind _
  | const name type value span =>
    refine value.check_steady.blind.bind fun _ => (checkReserved_steady name span).blind.bind fun _ => ?_
    exact (bindLocal_blind _).bind fun _ => .require _ _ _ _

theorem Param.check_blind (function : String) (p : Param) : (p.check function).Blind :=
  (checkReserved_steady p.name p.span).blind.bind fun _ =>
    bindEntity_blind (SymbolTable.define_seen _) (fun _ => rfl) _ _

theorem Func.register_blind (f : Func) : f.register.Blind := by
  refine (checkReserved_steady f.name f.span).blind.bind fun _ => ?_
  exact bindEntity_blind (SymbolTable.defineGlobal_seen _) (fun e => by rw [e.seen_isFunction]) _ _

end ThreeAddress
