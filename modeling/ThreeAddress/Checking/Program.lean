import ThreeAddress.Checking.Expression
import ThreeAddress.Code.Name

/-!
# Checking programs

* `Decl.check`, `Stmt.check`, `Func.check` — the faults of each part, in the order of the walk;
* `Scope.warnings` — what was never touched in a scope that closes;
* `Program.check` — the whole walk over a symbol table that may already hold names;
* `Program.analyze` — the findings in a program that starts from nothing.

Blocks open no scope of their own: a body's locals live in one scope beside its parameters.
-/

namespace ThreeAddress

/-! ### Declarations -/

/-- A declared name must not look like a generated one. -/
def checkReserved (name : String) (span : Span) : Check Unit :=
  Check.require (!isReservedName name) (.reservedName name) span
    "Names of the form t<number>, c<number> and L<number> are reserved"

/-- Bind an entity by the given way of defining; if the name is taken, say so and go on. -/
def bindEntity (define : SymbolTable → Except Entity SymbolTable) (cause : Entity → SemanticCause)
    (span : Span) (since : String) : Check Unit := do
  match define (← Pass.get) with
  | .ok table => Pass.modify fun _ => table
  | .error existing =>
    Check.report (cause existing) span (since ++ toString existing.span.start)

/-- Bind a declared entity in the innermost scope. -/
def bindLocal (e : Entity) : Check Unit :=
  bindEntity (·.define e) (fun _ => .redeclared e.name) e.span "Previously declared at position "

/-- A declaration.  The value of a constant is checked before its name is bound. -/
def Decl.check : Decl → Check Unit
  | .var name type span => do
    checkReserved name span
    bindLocal (.unassigned name type span)
  | .const name type value span => do
    let found ← value.check
    checkReserved name span
    bindLocal (.constant name type span)
    Check.require (found.resolvesTo type) (.constantType name type found) span
      (Decl.const name type value span).text

/-! ### Statements -/

/-- A name on its own on the right-hand side counts as used, if it is a variable or a parameter. -/
def markReferenced (value : Expr) : Check Unit := do
  match value.referencedName? with
  | none => return
  | some name =>
    match (← Pass.get).lookup? name with
    | none => return
    | some e =>
      if e.isFunction || e.isConstant then return
      else Pass.modify (·.setState name .used)

/-- An assignment.  Its target counts as assigned even if the types disagree. -/
def checkAssignment (target : String) (value : Expr) (span : Span) : Check Unit := do
  let found ← value.check
  markReferenced value
  let hint := assignmentText target value
  match (← Pass.get).lookup? target with
  | none => Check.report (.undeclaredTarget target) span hint
  | some e =>
    match e.valueType? with
    | none => Check.report (.functionAsTarget target) span hint
    | some type =>
      if e.isConstant then Check.report (.constantTarget target) span hint
      else do
        Check.require (found.resolvesTo type) (.targetType target type found) span hint
        Pass.modify (·.setState target .assigned)

mutual

/-- The faults of a statement. -/
def Stmt.check : Stmt → Check Unit
  | .assign target value assignSpan _ => checkAssignment target value assignSpan
  | .ite cond thenBlock elseBlock _ => do
    cond.check
    Block.check thenBlock
    Block.check elseBlock
  | .loop cond body _ => do
    cond.check
    Block.check body
  | .call c _ => do
    let _ ← c.check
  | .block inner _ => Block.check inner
  | .skip _ => return

/-- The faults of a block. -/
def Block.check : Block → Check Unit
  | ⟨stmts, _⟩ => Stmt.checkAll stmts

/-- The faults of statements in order. -/
def Stmt.checkAll : List Stmt → Check Unit
  | [] => return
  | s :: more => do
    s.check
    Stmt.checkAll more

end

/-! ### Scopes and warnings -/

/-- The warning that an untouched entity deserves. -/
def Entity.warning (e : Entity) : Warning :=
  if e.isFunction then ⟨.neverUsed, "Function '" ++ e.name ++ "' is never used", e.span⟩
  else ⟨.neverAssigned, "'" ++ e.name ++ "' is never assigned", e.span⟩

/-- The warnings of a scope, in the order of its definitions. -/
def Scope.warnings (s : Scope) : List Warning :=
  (s.entities.filter Entity.isUntouched).map Entity.warning

/-- Run a check in a scope of its own, and give the warnings of that scope when it closes. -/
def inScope (body : Check Unit) : Check (List Warning) := do
  Pass.modify SymbolTable.push
  body
  match (← Pass.get).pop? with
  | none => return []
  | some (scope, outer) =>
    Pass.modify fun _ => outer
    return scope.warnings

/-! ### Functions and programs -/

/-- A parameter of a function. -/
def Param.check (function : String) (p : Param) : Check Unit := do
  checkReserved p.name p.span
  bindEntity (·.define (.parameter p.name p.type p.span))
    (fun _ => .duplicateParameter p.name function) p.span "Previously defined at position "

/-- The return of a function. -/
def Func.checkReturn (f : Func) : Check Unit := do
  match f.returnValue with
  | some value =>
    let found ← value.check
    Check.require (found.resolvesTo f.returnType) (.returnType f.name f.returnType found) value.span
      ("return (" ++ value.text ++ ");")
  | none =>
    Check.require (f.returnType == .void) (.returnMissing f.name f.returnType) f.span "return ();"

/-- Bind a function among the globals. -/
def Func.register (f : Func) : Check Unit := do
  checkReserved f.name f.span
  bindEntity (·.defineGlobal (.function f.name f.returnType (f.params.map (·.type)) f.span))
    (fun existing =>
      if existing.isFunction then .functionRedefined f.name else .takenByGlobal f.name)
    f.span "Previously defined at position "

/-- A function.  It is bound before its body is checked, so it may call itself. -/
def Func.check (f : Func) : Check (List Warning) := do
  f.register
  inScope do
    f.params.forM (Param.check f.name)
    f.decls.forM Decl.check
    Block.check f.body
    f.checkReturn

namespace Program

/-- The whole walk; the value is the warnings. -/
def check (p : Program) : Check (List Warning) := do
  p.decls.forM Decl.check
  let inFunctions ← p.funcs.mapM Func.check
  let inMain ← inScope do
    p.main.decls.forM Decl.check
    Block.check p.main.body
  let globals := (← Pass.get).globals
  return inFunctions.flatten ++ inMain ++ globals.warnings

/-- The findings in a program over a symbol table, and the table afterwards. -/
def analyzeIn (p : Program) (table : SymbolTable) : Findings × SymbolTable :=
  let r := p.check.run table
  (⟨r.record, r.value⟩, r.state)

/-- The findings in a program. -/
def analyze (p : Program) : Findings := (p.analyzeIn .empty).1

end Program

end ThreeAddress
