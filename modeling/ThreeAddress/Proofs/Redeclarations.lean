import ThreeAddress.Proofs.NeglectedEntities
import ThreeAddress.Proofs.TablesInTurn

/-!
# Redeclarations

A binding whose name was bound before in its scope is refused, with one fault, and changes nothing: all the rest of
the analysis is about first bindings.  A name that is bound outside of the scope may be bound again in it.

* `refusal` — the fault of a binding, told by the bindings in front of it in its scope;
* `Decl.clash`, `Param.clash`, `Func.clash`, `RefusalCodes` — declarations, parameters and functions, and their codes;
* `Body.clashes`, `Program.clashes` — the refused bindings of a body and of a program, scope by scope;
* `Body.faults_clashes`, `Program.faultsInTurn_clashes` — these are the only redeclarations that are reported;
* `Program.analyze_redeclarations` — redeclarations, and what the rest of the analysis sees.
-/

namespace ThreeAddress

variable {α β : Type}

/-! ### Refused bindings -/

/-- The fault of a binding whose name was bound before in its scope.  It points to the first binding. -/
def refusal (cause : Entity → SemanticCause) (since : String) (before : List Entity) (e : Entity) : List Fault :=
  match before.find? (·.name == e.name) with
  | some first => [(cause first).fault e.span (since ++ toString first.span.start)]
  | none => []

/-- A declaration behind other bindings of its scope. -/
def Decl.clash (before : List Entity) (d : Decl) : List Fault :=
  refusal (fun _ => .redeclared d.name) "Previously declared at position " before d.entity

/-- A parameter behind others. -/
def Param.clash (function : String) (before : List Entity) (p : Param) : List Fault :=
  refusal (fun _ => .duplicateParameter p.name function) "Previously defined at position " before p.entity

/-- A function behind other global bindings.  It matters whether its name was first bound by a function. -/
def Func.clash (before : List Entity) (f : Func) : List Fault :=
  refusal (fun first => if first.isFunction then .functionRedefined f.name else .takenByGlobal f.name)
    "Previously defined at position " before f.entity

/-- The refused bindings of a body: parameters among themselves, and declarations behind all parameters.  What is bound
globally does not count. -/
def Body.clashes (function : String) (b : Body) : List Fault :=
  inTurn (fun before p => p.clash function (before.map Param.entity)) [] b.params ++
    inTurn (fun before d => d.clash (b.params.map Param.entity ++ before.map Decl.entity)) [] b.decls

/-- The refused bindings of a program.  The name of a function comes before its body, and all functions come behind the
global declarations. -/
def Program.clashes (p : Program) : List Fault :=
  inTurn (fun before d => d.clash (before.map Decl.entity)) [] p.decls ++
    (inTurn (fun done f => f.clash (p.entitiesWith done) ++ f.asBody.clashes f.name) [] p.funcs ++
      p.mainBody.clashes "main")

section Refusals

variable {cause : Entity → SemanticCause} {since : String} {gs es : List Entity} {e : Entity}

theorem refusal_filter (hcause : ∀ first span hint, ((cause first).fault span hint).isRedeclaration = true) :
    (refusal cause since es e).filter Fault.isRedeclaration = refusal cause since es e := by
  unfold refusal
  split
  · rw [List.filter_cons_of_pos (hcause _ _ _), List.filter_nil]
  · rfl

/-- One fault for a name that is taken, and none for one that is new. -/
theorem refusal_code : (refusal cause since es e).map Fault.code =
    ((es.find? (·.name == e.name)).map fun first => (cause first).code).toList := by
  unfold refusal
  cases es.find? (·.name == e.name) <;> rfl

/-- What has become of the first binding does not count. -/
theorem refusal_map {h : Entity → Entity} (hname : ∀ e, (h e).name = e.name) (hspan : ∀ e, (h e).span = e.span)
    (hcause : ∀ e, cause (h e) = cause e) : refusal cause since (es.map h) e = refusal cause since es e := by
  rw [refusal, refusal, List.find?_map]
  simp only [Function.comp_def, hname]
  cases es.find? (·.name == e.name) with
  | none => rfl
  | some first => simp only [Option.map_some, hcause, hspan]

theorem run_bindEntity_record (define : SymbolTable → Except Entity SymbolTable) (span : Span) (t : SymbolTable) :
    ((bindEntity define cause span since).run t).record =
      match define t with
      | .ok _ => []
      | .error first => [(cause first).fault span (since ++ toString first.span.start)] := by
  unfold bindEntity
  rw [Pass.run_bind, Pass.run_get]
  dsimp only
  cases define t <;> rfl

/-- A binding over a scope of first bindings. -/
theorem Scope.define_record (rebuild : Scope → SymbolTable) {define : SymbolTable → Except Entity SymbolTable}
    {t : SymbolTable} (hd : define t = ((Scope.of es).define e).map rebuild) :
    ((bindEntity define cause e.span since).run t).record = refusal cause since es e := by
  rw [run_bindEntity_record, hd, Scope.define, Scope.lookup_of, refusal]
  cases es.find? (·.name == e.name) <;> rfl

theorem SymbolTable.define_within_record :
    ((bindEntity (·.define e) cause e.span since).run (within gs es)).record = refusal cause since es e :=
  Scope.define_record (fun s => ⟨[s], Scope.of gs⟩) rfl

theorem SymbolTable.define_outside_record :
    ((bindEntity (·.define e) cause e.span since).run (outside gs)).record = refusal cause since gs e :=
  Scope.define_record (fun s => ⟨[], s⟩) rfl

theorem SymbolTable.defineGlobal_outside_record :
    ((bindEntity (·.defineGlobal e) cause e.span since).run (outside gs)).record = refusal cause since gs e :=
  Scope.define_record (fun s => ⟨[], s⟩) rfl

end Refusals

/-- The codes of refused bindings. -/
structure RefusalCodes (before : List Entity) : Prop where
  decl : ∀ d : Decl, (d.clash before).map Fault.code =
    ((before.find? (·.name == d.name)).map fun _ => FaultCode.alreadyDeclared).toList
  param : ∀ (function : String) (p : Param), (p.clash function before).map Fault.code =
    ((before.find? (·.name == p.name)).map fun _ => FaultCode.duplicateParameter).toList
  func : ∀ f : Func, (f.clash before).map Fault.code =
    ((before.find? (·.name == f.name)).map fun first =>
      if first.isFunction then FaultCode.functionRedefined else .alreadyDeclared).toList

theorem refusalCodes (before : List Entity) : RefusalCodes before where
  decl d := by
    rw [Decl.clash, refusal_code, d.entity_name]
    rfl
  param _ _ := refusal_code
  func f := by
    rw [Func.clash, refusal_code, f.entity_name]
    refine congrArg (fun g => (Option.map g _).toList) (funext fun first => ?_)
    split <;> rfl

/-! ### Which faults are redeclarations -/

open Check (Looks Steady)

theorem Check.Steady.filter_bind {p : Check α} (hp : p.Steady) {f : α → Check β} (t : SymbolTable) :
    ((p >>= f).run t).record.filter Fault.isRedeclaration =
      ((f (p.run t).value).run (p.run t).state).record.filter Fault.isRedeclaration := by
  rw [Pass.run_bind, List.filter_append, hp.quiet, List.nil_append]

/-- An expression leaves a table behind that looks the same. -/
theorem Expr.check_seen (e : Expr) {t : SymbolTable} (ht : t.Tidy) : (e.check.run t).state.seen = t.seen := by
  rw [SymbolTable.seen_of_plain (e.check_notes t ht)]
  simp [SymbolTable.seen, SymbolTable.note, Scope.seen_note_called]

/-- The value of a constant and its type give no redeclaration. -/
theorem Decl.check_redeclares (d : Decl) {t : SymbolTable} (ht : t.Tidy) :
    (d.check.run t).record.filter Fault.isRedeclaration =
      ((bindLocal d.entity).run t).record.filter Fault.isRedeclaration := by
  cases d with
  | var name type span =>
    rw [Decl.check, (checkReserved_steady name span).filter_bind, checkReserved_looks]
    rfl
  | const name type value span =>
    rw [Decl.check, value.check_steady.filter_bind, (checkReserved_steady name span).filter_bind, checkReserved_looks,
      Pass.run_bind, List.filter_append, (Steady.require rfl).quiet, List.append_nil,
      (bindLocal_blind _).record_eq (value.check_seen ht)]
    rfl

section Clashes

variable {gs es : List Entity}

theorem Decl.clash_within (d : Decl) :
    (d.check.run (.within gs es)).record.filter Fault.isRedeclaration = d.clash es := by
  rw [d.check_redeclares (SymbolTable.tidy_within gs es), bindLocal, SymbolTable.define_within_record,
    refusal_filter fun _ _ _ => rfl, d.entity_name]
  rfl

theorem Decl.clash_outside (d : Decl) :
    (d.check.run (.outside gs)).record.filter Fault.isRedeclaration = d.clash gs := by
  rw [d.check_redeclares (SymbolTable.tidy_outside gs), bindLocal, SymbolTable.define_outside_record,
    refusal_filter fun _ _ _ => rfl, d.entity_name]
  rfl

theorem Param.clash_within (function : String) (p : Param) :
    ((p.check function).run (.within gs es)).record.filter Fault.isRedeclaration = p.clash function es := by
  unfold Param.check
  rw [(checkReserved_steady p.name p.span).filter_bind, checkReserved_looks]
  refine (congrArg (List.filter _) (SymbolTable.define_within_record (e := p.entity))).trans ?_
  exact refusal_filter fun _ _ _ => rfl

theorem Func.clash_outside (f : Func) :
    (f.register.run (.outside gs)).record.filter Fault.isRedeclaration = f.clash gs := by
  unfold Func.register
  rw [(checkReserved_steady f.name f.span).filter_bind, checkReserved_looks]
  refine (congrArg (List.filter _) (SymbolTable.defineGlobal_outside_record (e := f.entity))).trans ?_
  refine refusal_filter fun first _ _ => ?_
  cases first.isFunction <;> rfl

end Clashes

/-- **Bodies.**  Statements and returns redeclare nothing, and what is bound globally does not count. -/
theorem Body.faults_clashes (function : String) (globals : List Entity) (b : Body) {last : Check Unit}
    (hlast : last.Steady) :
    (b.faults function globals last).filter Fault.isRedeclaration = b.clashes function := by
  rw [faults, List.filter_append, List.filter_append, ((Block.check_steady b.block).bind fun _ => hlast).quiet,
    List.append_nil, inTurn_filter, inTurn_filter]
  simp only [Param.clash_within, Decl.clash_within]
  rfl

namespace Program

variable (p : Program)

theorem functionFaults_clashes (done : List Func) (f : Func) :
    (p.functionFaults done f).filter Fault.isRedeclaration =
      f.clash (p.entitiesWith done) ++ f.asBody.clashes f.name := by
  have hspan (e : Entity) : (e.settled done).span = e.span := by
    unfold Entity.settled
    split <;> rfl
  rw [functionFaults, List.filter_append, f.clash_outside, f.asBody.faults_clashes _ _ f.checkReturn_steady,
    globalsAfter]
  refine congrArg (· ++ _) (refusal_map (Entity.settled_name done) hspan fun e => ?_)
  rw [Entity.settled_isFunction]

theorem faultsInTurn_clashes : p.faultsInTurn.filter Fault.isRedeclaration = p.clashes := by
  rw [faultsInTurn, List.filter_append, List.filter_append, inTurn_filter, inTurn_filter,
    p.mainBody.faults_clashes _ _ (.pure ())]
  simp only [Decl.clash_outside, p.functionFaults_clashes]
  rfl

/-- **Redeclarations.**  Of the faults of a program, the redeclarations are those of the bindings whose name was bound
before in their scope, one each, with a code that tells what was bound again.

The rest of the analysis is about first bindings.  Every part is checked over a table of them, the body of each
function with its own parameters and return; in every table that an analyser comes through on the way to these
findings, a name means the first binding in the body at hand, or else the first one among the globals; and every
warning is of a first binding. -/
theorem analyze_redeclarations :
    p.analyze.faults.filter Fault.isRedeclaration = p.clashes ∧
      (∀ before, RefusalCodes before) ∧
      p.analyze.faults = p.faultsInTurn ∧
      (p.analyzeWith.run .fresh).value = p.analyze ∧
      (∀ t ∈ p.tables, ∃ gs es, gs <+: p.entities ∧ (∃ b ∈ p.bodies, es <+: b.entities) ∧ t.MeansFirsts gs es) ∧
      ∀ w ∈ p.analyze.warnings, ∃ e : Entity, w = e.warning ∧
        ((∃ b ∈ p.bodies, b.entities.find? (·.name == e.name) = some e) ∨
          p.entities.find? (·.name == e.name) = some e) := by
  have hfaults : p.analyze.faults = p.faultsInTurn := congrArg Findings.faults p.analyze_eq
  have hwarnings := congrArg Findings.warnings p.analyze_eq
  refine ⟨by rw [hfaults, p.faultsInTurn_clashes], refusalCodes, hfaults, (p.run_analyzeWith rfl rfl).1,
    fun t ht => (p.tables_hold t ht).means, fun w hw => ?_⟩
  rw [hwarnings] at hw
  obtain ⟨e, he, rfl⟩ := List.mem_map.1 hw
  refine ⟨e, rfl, ?_⟩
  rcases List.mem_append.1 he with he | he
  · obtain ⟨b, hb, he⟩ := List.mem_flatMap.1 he
    exact .inl ⟨b, hb, (Body.mem_neglected_iff.1 he).first⟩
  · exact .inr (mem_firsts_iff.1 (List.mem_filter.1 he).1)

-- A parameter may shadow a global, but not another parameter, nor a declaration of the body a parameter.
example : (Program.ofSource ("var x: integer; void f(x: integer, x: integer) \x7b var x: integer; return (); \x7d "
    ++ "integer f() \x7b return (x); \x7d void x() \x7b return (); \x7d main \x7b var f: integer; \x7d")).toOption.map
      (fun p => p.clashes.map (·.code)) =
    some [.duplicateParameter, .alreadyDeclared, .functionRedefined, .alreadyDeclared] := by decide +kernel

end Program

end ThreeAddress
