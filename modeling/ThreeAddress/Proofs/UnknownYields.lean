import ThreeAddress.Proofs.NestedExpressions
import ThreeAddress.Proofs.Walks

/-!
# What is unknown is told once

An expression yields nothing known only where a fault has just been reported within it.  Whatever looks at its type
then says nothing more about it, and all that it says about anything else.

* `Yield.mismatch`, `Yield.clash` — the faults of a yield where a type is expected, and of two that are compared;
* `Expr.yieldAt`, `Expr.after` — what an expression yields to an analyser, and the analyser behind it;
* `Expr.unknown_check` — a fault has been reported for what is unknown;
* `TellsUnknownOnce` — the faults of everything that looks at types, put together from those of its operands;
* `tellsUnknownOnce` — the same for every analyser.
-/

namespace ThreeAddress

/-! ### Yields and types -/

namespace Yield

/-- The faults of a yield where a type is expected. -/
def mismatch (y : Yield) (expected : Ty) (cause : Yield → SemanticCause) (span : Span) (hint : String) : List Fault :=
  match y.type? with
  | none => []
  | some type => if type = expected then [] else [(cause y).fault span hint]

/-- The faults of two yields that are compared with each other. -/
def clash (l r : Yield) (op : Equality) (span : Span) (hint : String) : List Fault :=
  if l = .unknown ∨ r = .unknown ∨ l = r then [] else [(SemanticCause.incomparable op l r).fault span hint]

variable {expected : Ty} {cause : Yield → SemanticCause} {span : Span} {hint : String} {s : SymbolTable}

@[simp]
theorem mismatch_unknown : unknown.mismatch expected cause span hint = [] := rfl

theorem record_require (y : Yield) :
    ((Check.require (y.resolvesTo expected) (cause y) span hint).run s).record =
      y.mismatch expected cause span hint := by
  unfold Check.require mismatch
  cases y with
  | value t | call t => by_cases ht : t = expected <;> simp [resolvesTo, type?, ht, Check.report]
  | unknown => rfl

theorem record_checkOperands (l r : Yield) : ((checkOperands cause expected l r span hint).run s).record =
    l.mismatch expected cause span hint ++ r.mismatch expected cause span hint := by
  rw [checkOperands, Pass.run_bind, record_require, record_require]

theorem record_agreesWith (op : Equality) (l r : Yield) :
    ((Check.require (l.agreesWith r) (.incomparable op l r) span hint).run s).record = l.clash r op span hint := by
  have hiff : l.agreesWith r = true ↔ l = .unknown ∨ r = .unknown ∨ l = r := by
    cases l <;> cases r <;> simp [agreesWith, isUnknown]
  unfold Check.require clash
  by_cases h : l.agreesWith r = true
  · rw [if_pos h, if_pos (hiff.1 h)]
    rfl
  · rw [if_neg h, if_neg (hiff.not.1 h)]
    rfl

end Yield

/-! ### What is unknown -/

section

variable {s : SymbolTable} {causes : NameCauses} {x hint : String} {span : Span}

/-- A name yields nothing known if just one fault has been reported, where the name stands. -/
theorem checkName_unknown (h : ((checkName causes x span hint).run s).value = .unknown) :
    ∃ f, ((checkName causes x span hint).run s).record = [f] ∧ f.span = span := by
  unfold checkName at h ⊢
  simp only [Pass.run_bind, Pass.run_get] at h ⊢
  cases hx : s.lookup? x with
  | none => exact ⟨_, rfl, rfl⟩
  | some e =>
    cases htype : e.valueType? with
    | none => exact ⟨_, by simp [htype, Check.report]; rfl, rfl⟩
    | some type =>
      rw [hx] at h
      simp [htype] at h

/-- A sign is not looked at where the name yields nothing known. -/
theorem run_checkSigned (s : SymbolTable) (cause : Yield → SemanticCause) (expected : Ty) (x : String) (span : Span)
    (hint : String) :
    ((checkSigned cause expected x span hint).run s).record =
        ((checkName .ofOperand x span hint).run s).record ++
          ((checkName .ofOperand x span hint).run s).value.mismatch expected cause span hint ∧
      ((checkSigned cause expected x span hint).run s).value =
        if ((checkName .ofOperand x span hint).run s).value = .unknown then .unknown else .value expected := by
  unfold checkSigned
  simp only [Pass.run_bind]
  cases hy : ((checkName .ofOperand x span hint).run s).value with
  | unknown => exact ⟨rfl, rfl⟩
  | value type | call type =>
    refine ⟨?_, rfl⟩
    rw [Pass.run_bind, Yield.record_require, Pass.run_pure, List.append_nil]

theorem checkSigned_unknown {cause : Yield → SemanticCause} {expected : Ty}
    (h : ((checkSigned cause expected x span hint).run s).value = .unknown) :
    ∃ f, ((checkSigned cause expected x span hint).run s).record = [f] ∧ f.span = span := by
  obtain ⟨hrecord, hvalue⟩ := run_checkSigned s cause expected x span hint
  rw [hvalue] at h
  split at h
  · rename_i hname
    obtain ⟨f, hf, hspan⟩ := checkName_unknown hname
    exact ⟨f, by rw [hrecord, hf, hname, Yield.mismatch_unknown, List.append_nil], hspan⟩
  · cases h

theorem Fragment.unknown_check {f : Fragment} (h : ((f.check span).run s).value = .unknown) :
    ∃ fault, ((f.check span).run s).record = [fault] ∧ fault.span = span := by
  unfold check at h ⊢
  split at h
  · cases h
  · cases h
  · cases h
  · exact checkName_unknown h
  · exact checkSigned_unknown h
  · exact checkSigned_unknown h

theorem Call.unknown_check {c : Call} (h : (c.check.run s).value = .unknown) :
    ∃ f, (c.check.run s).record = [f] ∧ f.span = c.span := by
  unfold check at h ⊢
  simp only [Pass.run_bind, Pass.run_get] at h ⊢
  generalize (s.lookupGlobal? c.name).map Entity.kind = kind at h ⊢
  rcases kind with _ | (type | ⟨result, params⟩)
  · exact ⟨_, rfl, rfl⟩
  · exact ⟨_, rfl, rfl⟩
  · simp only [Pass.run_bind] at h
    split at h <;> cases h

/-- An expression yields nothing known only if just one fault has been reported, and that within it. -/
theorem Expr.unknown_check {e : Expr} (h : (e.check.run s).value = .unknown) :
    ∃ f, (e.check.run s).record = [f] ∧ (e.outline.Nested → f.span.Within e.span) := by
  induction e generalizing s with
  | arith op l r sp ihl ihr => cases h
  | logic op l r sp ihl ihr => cases h
  | paren e sp ih =>
    obtain ⟨f, hf, hwithin⟩ := ih h
    refine ⟨f, hf, fun hnested => ?_⟩
    have he := hnested.within (o := e.outline) (by simp) e.outline_span?
    have hf' := hwithin (hnested.part (by simp))
    exact ⟨Nat.le_trans he.1 hf'.1, Nat.le_trans hf'.2 he.2⟩
  | call c sp =>
    obtain ⟨f, hf, hspan⟩ := Call.unknown_check h
    refine ⟨f, hf, fun hnested => ?_⟩
    rw [hspan]
    exact hnested.within (o := c.outline) (by simp) rfl
  | fragment f sp =>
    obtain ⟨fault, hfault, hspan⟩ := Fragment.unknown_check h
    refine ⟨fault, hfault, fun _ => ?_⟩
    rw [hspan]
    exact ⟨Nat.le_refl _, Nat.le_refl _⟩

end

/-! ### Arguments -/

/-- What an argument yields over a table. -/
def Argument.yieldAt (hint : String) (s : SymbolTable) (a : Argument) : Yield := ((a.check hint).run s).value

/-- The faults in an argument over a table. -/
def Argument.faultsAt (hint : String) (s : SymbolTable) (a : Argument) : List Fault := ((a.check hint).run s).record

/-- The faults of arguments whose types are compared with those of parameters, in order. -/
def mismatches (function hint : String) : Nat → List (Argument × Yield × Ty) → List Fault
  | _, [] => []
  | position, (a, found, expected) :: more =>
    found.mismatch expected (.argumentType position function expected) a.span hint ++
      mismatches function hint (position + 1) more

/-- The fault of a call with too few or too many arguments. -/
def Call.countFaults (c : Call) (arity : Nat) : List Fault :=
  if c.args.length < arity then [(SemanticCause.tooFewArguments c.name arity c.args.length).fault c.span c.text]
  else if arity < c.args.length then [(SemanticCause.tooManyArguments c.name arity c.args.length).fault c.span c.text]
  else []

theorem record_checkArguments (function hint : String) (position : Nat) (as : List (Argument × Yield × Ty))
    (s : SymbolTable) :
    ((checkArguments function hint position as).run s).record = mismatches function hint position as := by
  induction as generalizing position s with
  | nil => rfl
  | cons x more ih =>
    obtain ⟨a, found, expected⟩ := x
    rw [checkArguments, Pass.run_bind, Yield.record_require, ih, mismatches]

theorem run_mapM_arguments (hint : String) (as : List Argument) (s : SymbolTable) :
    ((as.mapM (Argument.check hint)).run s).value = as.map (Argument.yieldAt hint s) ∧
      ((as.mapM (Argument.check hint)).run s).record = as.flatMap (Argument.faultsAt hint s) := by
  induction as with
  | nil => exact ⟨rfl, rfl⟩
  | cons a more ih =>
    have hlooks := a.check_looks hint s
    rw [List.mapM_cons]
    simp only [Pass.run_bind, Pass.run_pure, hlooks, ih, List.append_nil]
    exact ⟨rfl, rfl⟩

/-- An argument yields nothing known only if just one fault has been reported, at the argument. -/
theorem Argument.unknown_check {a : Argument} {hint : String} {s : SymbolTable} (h : a.yieldAt hint s = .unknown) :
    ∃ f, a.faultsAt hint s = [f] ∧ f.span = a.span := by
  unfold yieldAt faultsAt at *
  unfold check at h ⊢
  split at h
  · cases h
  · exact checkName_unknown h

/-! ### Analysers -/

/-- What an expression yields to an analyser. -/
def Expr.yieldAt (e : Expr) (a : Analyzer) : Yield := (e.walk.run a).value

/-- The analyser behind an expression. -/
def Expr.after (e : Expr) (a : Analyzer) : Analyzer := (e.walk.run a).state

/-- What is said about the target of an assignment, and about what is assigned to it. -/
def targetFaults (target : String) (span : Span) (hint : String) (found : Yield) : Option Entity → List Fault
  | none => [(SemanticCause.undeclaredTarget target).fault span hint]
  | some e =>
    match e.valueType? with
    | none => [(SemanticCause.functionAsTarget target).fault span hint]
    | some type =>
      if e.isConstant then [(SemanticCause.constantTarget target).fault span hint]
      else found.mismatch type (.targetType target type) span hint

/-- Each fault that is found with the help of what an operand yields is a mismatch of that operand alone, or the clash
of two that are both known. -/
structure TellsUnknownOnce (a : Analyzer) : Prop where
  /-- For what is unknown a fault has been added, and that within the expression. -/
  told : ∀ e : Expr, e.yieldAt a = .unknown → ∃ f, (e.after a).faults = a.faults ++ [f] ∧
    ∀ source p, Program.ofSource source = .ok p → e ∈ p.expressions → f.span.Within e.span
  /-- Nothing is added where the type of something unknown is looked at. -/
  accepted : ∀ expected cause span hint, Yield.unknown.mismatch expected cause span hint = []
  paired : ∀ (y : Yield) op span hint, Yield.unknown.clash y op span hint = [] ∧ y.clash .unknown op span hint = []
  arith : ∀ op l r span, ((Expr.arith op l r span).after a).faults = (r.after (l.after a)).faults ++
    ((l.yieldAt a).mismatch .integer (.operands op.text .integer) span (Expr.arith op l r span).text ++
      (r.yieldAt (l.after a)).mismatch .integer (.operands op.text .integer) span (Expr.arith op l r span).text)
  logic : ∀ op l r span, ((Expr.logic op l r span).after a).faults = (r.after (l.after a)).faults ++
    ((l.yieldAt a).mismatch .boolean (.operands op.text .boolean) span (Expr.logic op l r span).text ++
      (r.yieldAt (l.after a)).mismatch .boolean (.operands op.text .boolean) span (Expr.logic op l r span).text)
  comparison : ∀ op l r span, ((Cond.comparison op l r span).walk.run a).state.faults =
    (r.after (l.after a)).faults ++
      ((l.yieldAt a).mismatch .integer (.comparedOperands op) span (Cond.comparison op l r span).text ++
        (r.yieldAt (l.after a)).mismatch .integer (.comparedOperands op) span (Cond.comparison op l r span).text)
  equality : ∀ op l r span, ((Cond.equality op l r span).walk.run a).state.faults =
    (r.after (l.after a)).faults ++
      (l.yieldAt a).clash (r.yieldAt (l.after a)) op span (Cond.equality op l r span).text
  negated : ∀ x span, let name := (checkName .ofOperand x span (Fragment.atom true (.name x)).text).run a.symbols
    ((Expr.fragment (.atom true (.name x)) span).after a).faults = a.faults ++ (name.record ++
      name.value.mismatch .integer .negatedOperand span (Fragment.atom true (.name x)).text)
  inverted : ∀ x span, let name := (checkName .ofOperand x span (Fragment.not x).text).run a.symbols
    ((Expr.fragment (.not x) span).after a).faults = a.faults ++ (name.record ++
      name.value.mismatch .boolean .invertedOperand span (Fragment.not x).text)
  constant : ∀ name type value span,
    let bound := (do Walk.inspect (checkReserved name span); walkLocal (.constant name type span)).run (value.after a)
    ((Decl.const name type value span).walk.run a).state.faults = bound.state.faults ++
      (value.yieldAt a).mismatch type (.constantType name type) span (Decl.const name type value span).text
  assignment : ∀ target value span s, ((Stmt.assign target value span s).walk.run a).state.faults =
    (value.after a).faults ++ targetFaults target span (assignmentText target value) (value.yieldAt a)
      (((walkReferenced value).run (value.after a)).state.symbols.lookup? target)
  arguments : ∀ (c : Call) result params,
    (a.symbols.lookupGlobal? c.name).map Entity.kind = some (.function result params) →
    let s := a.symbols.setGlobalState c.name .used
    (c.walk.run a).state.faults = a.faults ++ (c.countFaults params.length ++
      (c.args.flatMap (Argument.faultsAt c.text s) ++
        if c.args.length = params.length then
          mismatches c.name c.text 1 (c.args.zip ((c.args.map (Argument.yieldAt c.text s)).zip params))
        else []))
  argument : ∀ (arg : Argument) hint s, arg.yieldAt hint s = .unknown →
    ∃ f, arg.faultsAt hint s = [f] ∧ f.span = arg.span
  returned : ∀ (f : Func) value, f.returnValue = some value → (f.walkReturn.run a).state.faults =
    (value.after a).faults ++ (value.yieldAt a).mismatch f.returnType (.returnType f.name f.returnType) value.span
      ("return (" ++ value.text ++ ");")

theorem faults_walkReferenced (e : Expr) (a : Analyzer) : ((walkReferenced e).run a).state.faults = a.faults := by
  unfold walkReferenced
  cases e.referencedName? with
  | none => rfl
  | some x =>
    simp only [Walk.symbols, Pass.run_bind, Pass.run_get, Pass.run_pure]
    cases a.symbols.lookup? x with
    | none => rfl
    | some e =>
      dsimp only
      cases e.isFunction || e.isConstant <;> rfl

theorem faults_walkAssignment (target : String) (value : Expr) (span : Span) (a : Analyzer) :
    ((walkAssignment target value span).run a).state.faults = (value.after a).faults ++
      targetFaults target span (assignmentText target value) (value.yieldAt a)
        (((walkReferenced value).run (value.after a)).state.symbols.lookup? target) := by
  have hfaults := faults_walkReferenced value (value.after a)
  unfold walkAssignment targetFaults
  simp only [Walk.symbols, Pass.run_bind, Pass.run_get, Pass.run_pure]
  rw [← hfaults, Expr.after, Expr.yieldAt]
  cases ((walkReferenced value).run (value.walk.run a).state).state.symbols.lookup? target with
  | none => rfl
  | some e =>
    dsimp only
    cases e.valueType? with
    | none => rfl
    | some type =>
      dsimp only
      cases e.isConstant with
      | true => rfl
      | false => exact congrArg _ (Yield.record_require _)

theorem Call.record_counts (c : Call) (arity : Nat) (s : SymbolTable) :
    let count := c.args.length
    ((Check.require (arity ≤ count) (.tooFewArguments c.name arity count) c.span c.text).run s).record ++
        ((Check.require (count ≤ arity) (.tooManyArguments c.name arity count) c.span c.text).run s).record =
      c.countFaults arity := by
  unfold Check.require countFaults
  rcases Nat.lt_trichotomy c.args.length arity with h | h | h
  · simp [h, Nat.not_le.2 h, Nat.le_of_lt h, Check.report]
  · simp [h]
  · simp [h, Nat.not_le.2 h, Nat.le_of_lt h, Nat.not_lt.2 (Nat.le_of_lt h), Check.report]

theorem Call.faults_walk {c : Call} {a : Analyzer} {result : Ty} {params : List Ty}
    (h : (a.symbols.lookupGlobal? c.name).map Entity.kind = some (.function result params)) :
    (c.walk.run a).state.faults = a.faults ++ (c.countFaults params.length ++
      (c.args.flatMap (Argument.faultsAt c.text (a.symbols.setGlobalState c.name .used)) ++
        if c.args.length = params.length then
          mismatches c.name c.text 1 (c.args.zip
            ((c.args.map (Argument.yieldAt c.text (a.symbols.setGlobalState c.name .used))).zip params))
        else [])) := by
  obtain ⟨hvalue, hrecord⟩ := run_mapM_arguments c.text c.args (a.symbols.setGlobalState c.name .used)
  have hlooks (ok : Bool) (cause : SemanticCause) (s : SymbolTable) :
      ((Check.require ok cause c.span c.text).run s).state = s := Check.Looks.require ok cause c.span c.text s
  rw [(c.walk_follows a).2]
  refine congrArg (a.faults ++ ·) ?_
  rw [← Call.record_counts c params.length a.symbols, List.append_assoc, check]
  simp only [Pass.run_bind, Pass.run_get, h, hlooks, Pass.run_modify, hvalue, hrecord, List.nil_append]
  refine congrArg _ (congrArg _ (congrArg _ ?_))
  by_cases hcount : c.args.length = params.length
  · rw [if_pos hcount, if_pos hcount, Pass.run_bind, record_checkArguments, Pass.run_pure, List.append_nil]
  · rw [if_neg hcount, if_neg hcount]
    rfl

/-- **What is unknown is told once.**  Wherever an analyser stands, an expression of which nothing is known has added a
fault to those it had, one within the expression; and all checks that look at the type of an operand pass what is
unknown, and tell about each other operand what they tell of it in any case. -/
theorem tellsUnknownOnce (a : Analyzer) : TellsUnknownOnce a where
  told e h := by
    obtain ⟨hvalue, hstate⟩ := e.walk_follows a
    obtain ⟨f, hf, hwithin⟩ := Expr.unknown_check (hvalue.symm.trans h)
    refine ⟨f, ?_, fun source p hp he => hwithin (Program.nested_expressions hp he)⟩
    rw [Expr.after, hstate, hf]
  accepted _ _ _ _ := rfl
  paired _ _ _ _ := ⟨if_pos (.inl rfl), if_pos (.inr (.inl rfl))⟩
  arith op l r span := congrArg _ (Yield.record_checkOperands _ _)
  logic op l r span := congrArg _ (Yield.record_checkOperands _ _)
  comparison op l r span := congrArg _ (Yield.record_checkOperands _ _)
  equality op l r span := congrArg _ (Yield.record_agreesWith _ _ _)
  negated x span := congrArg _ (run_checkSigned ..).1
  inverted x span := congrArg _ (run_checkSigned ..).1
  constant name type value span := congrArg _ (Yield.record_require _)
  assignment target value span s := by
    rw [Stmt.walk]
    exact faults_walkAssignment target value span a
  arguments c result params h := Call.faults_walk h
  argument arg hint s h := Argument.unknown_check h
  returned f value h := by
    unfold Func.walkReturn
    rw [h]
    exact congrArg _ (Yield.record_require _)

/-- Of two undeclared names and a truth value that are added up, each name is told, and so is the value. -/
example : (((Expr.arith .plus (.arith .plus (.fragment (.atom false (.name "x")) ⟨0, 1⟩)
      (.fragment (.atom true (.name "y")) ⟨4, 6⟩) ⟨0, 6⟩) (.fragment (.bool true) ⟨9, 13⟩) ⟨0, 13⟩).walk.run
    .fresh).state.faults.map fun f => (f.message, f.span)) =
      [("Undefined variable 'x'", ⟨0, 1⟩), ("Undefined variable 'y'", ⟨4, 6⟩),
        ("Operator '+' requires integer operands, found boolean", ⟨0, 13⟩)] := by
  decide +kernel

end ThreeAddress
